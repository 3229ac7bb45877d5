/-
  TypedClient.Proofs.Schema.Mentions

  The references that are written inside a schema.  A schema that is read from a value mentions
  what the value mentions.  Cleaning, merging and flattening put keywords together and never make a
  reference up: what comes out mentions what went in, and for a flattened composition also what the
  targets of its references mention.
-/
import TypedClient.Proofs.Schema.Distinct
import TypedClient.Registry.Walk

namespace TypedClient

variable {reference : String}

/-! ## Values of a document -/

namespace Json

/-- Some object inside the value has the reference as its `$ref`. -/
def Mentions (value : Json) (reference : String) : Prop :=
  ∃ fields, .obj fields ∈ value.parts ∧ ("$ref", .str reference) ∈ fields

variable {value : Json} {fields : List (String × Json)} {items : List Json}

theorem Mentions.of_subset {inner : Json} (h : inner.Mentions reference)
    (hparts : inner.parts ⊆ value.parts) : value.Mentions reference := by
  obtain ⟨fields, hfields, href⟩ := h
  exact ⟨fields, hparts hfields, href⟩

/-- The reference of an object is mentioned. -/
theorem mentions_own (h : ("$ref", .str reference) ∈ fields) :
    (Json.obj fields).Mentions reference :=
  ⟨fields, self_mem_parts _, h⟩

theorem Mentions.of_field {key : String} {inner : Json} (h : inner.Mentions reference)
    (hfield : (key, inner) ∈ fields) : (Json.obj fields).Mentions reference := by
  refine h.of_subset fun part hpart => ?_
  rw [parts]
  exact List.mem_cons_of_mem _ (parts_subset_partsOfFields hfield hpart)

theorem Mentions.of_item {item : Json} (h : item.Mentions reference) (hitem : item ∈ items) :
    (Json.arr items).Mentions reference := by
  refine h.of_subset fun part hpart => ?_
  rw [parts]
  exact List.mem_cons_of_mem _ (parts_subset_partsOfItems hitem hpart)

theorem exists_of_mem_partsOfFields {part : Json} (h : part ∈ partsOfFields fields) :
    ∃ field ∈ fields, part ∈ field.2.parts := by
  induction fields with
  | nil => cases h
  | cons field rest ih =>
    rw [partsOfFields] at h
    rcases List.mem_append.mp h with h | h
    · exact ⟨field, List.mem_cons_self .., h⟩
    · obtain ⟨other, hother, hpart⟩ := ih h
      exact ⟨other, List.mem_cons_of_mem _ hother, hpart⟩

/-- An object mentions its own reference, and what its fields mention. -/
theorem mentions_obj_iff : (Json.obj fields).Mentions reference ↔
    ("$ref", .str reference) ∈ fields ∨ ∃ field ∈ fields, field.2.Mentions reference := by
  constructor
  · rintro ⟨inner, hinner, href⟩
    rw [parts] at hinner
    rcases List.mem_cons.mp hinner with heq | hinner
    · cases heq
      exact Or.inl href
    · obtain ⟨field, hfield, hpart⟩ := exists_of_mem_partsOfFields hinner
      exact Or.inr ⟨field, hfield, inner, hpart, href⟩
  · rintro (href | ⟨field, hfield, h⟩)
    · exact mentions_own href
    · exact h.of_field hfield

/-- More fields mention no less. -/
theorem Mentions.of_fields {more : List (String × Json)} (h : (Json.obj fields).Mentions reference)
    (hfields : fields ⊆ more) : (Json.obj more).Mentions reference := by
  rw [mentions_obj_iff] at h ⊢
  rcases h with href | ⟨field, hfield, h⟩
  · exact Or.inl (hfields href)
  · exact Or.inr ⟨field, hfields hfield, h⟩

/-- The references that a value mentions. -/
def references (value : Json) : List String :=
  value.parts.flatMap fun
    | .obj fields => fields.filterMap fun (key, value) =>
      if key = "$ref" then value.asString? else none
    | _ => []

theorem mem_references : reference ∈ value.references ↔ value.Mentions reference := by
  have hown : ∀ field : String × Json,
      (if field.1 = "$ref" then field.2.asString? else none) = some reference ↔
        field = ("$ref", .str reference) := by
    rintro ⟨key, inner⟩
    cases inner <;> simp [asString?, eq_comm]
  unfold references Mentions
  rw [List.mem_flatMap]
  constructor
  · rintro ⟨part, hpart, h⟩
    cases part with
    | obj fields =>
      obtain ⟨field, hfield, heq⟩ := List.mem_filterMap.mp h
      exact ⟨fields, hpart, (hown field).mp heq ▸ hfield⟩
    | _ => cases h
  · rintro ⟨fields, hfields, href⟩
    exact ⟨.obj fields, hfields, List.mem_filterMap.mpr ⟨_, href, (hown _).mpr rfl⟩⟩

/-- What stands under a key mentions nothing else than the object does. -/
theorem Mentions.of_get? {inner : Json} {key : String} (h : inner.Mentions reference)
    (hinner : value.get? key = some inner) : value.Mentions reference := by
  cases value with
  | obj fields => exact Mentions.of_field h (Keyed.mem_of_get? hinner)
  | _ => cases hinner

end Json

/-- What a reference leads to mentions nothing else than the document does. -/
theorem Reference.mentions_of_resolve {document target : Json} {start : String}
    (h : resolve document start = some target) (hmentions : target.Mentions reference) :
    document.Mentions reference :=
  hmentions.of_subset (parts_subset_of_resolve h)

namespace Schema

/-! ## Schemas -/

/-- The node stands right inside the schema. -/
inductive Holds (schema : Schema) : SchemaNode → Prop where
  | property {properties : Keyed SchemaNode} {name : String} {node : SchemaNode}
      (declared : schema.properties = some properties) (mem : (name, node) ∈ properties) :
      Holds schema node
  | additional {node : SchemaNode} (declared : schema.additionalProperties = some node) :
      Holds schema node
  | item {node : SchemaNode} (declared : schema.items = some (.single node)) : Holds schema node
  | position {nodes : List SchemaNode} {node : SchemaNode}
      (declared : schema.items = some (.tuple nodes)) (mem : node ∈ nodes) : Holds schema node
  | member {composition : Composition} {nodes : List SchemaNode} {node : SchemaNode}
      (declared : composition.members? schema = some nodes) (mem : node ∈ nodes) :
      Holds schema node

section

variable {schema : Schema} {nodes : List SchemaNode} {node : SchemaNode}

theorem Holds.of_getD {name : String} (h : (name, node) ∈ schema.properties.getD []) :
    schema.Holds node := by
  cases hproperties : schema.properties with
  | none =>
    rw [hproperties] at h
    cases h
  | some properties =>
    rw [hproperties] at h
    exact .property hproperties h

theorem Holds.of_allOf (h : schema.allOf = some nodes) (hnode : node ∈ nodes) : schema.Holds node :=
  have hmembers : Composition.allOf.members? schema = some nodes := h
  .member hmembers hnode

theorem Holds.of_anyOf (h : schema.anyOf = some nodes) (hnode : node ∈ nodes) : schema.Holds node :=
  have hmembers : Composition.anyOf.members? schema = some nodes := h
  .member hmembers hnode

theorem Holds.of_oneOf (h : schema.oneOf = some nodes) (hnode : node ∈ nodes) : schema.Holds node :=
  have hmembers : Composition.oneOf.members? schema = some nodes := h
  .member hmembers hnode

end

/-- The reference is that of the schema, or of a schema inside it. -/
inductive Mentions : Schema → String → Prop where
  | own {schema : Schema} {reference : String} (ref : schema.ref = some reference) :
      Mentions schema reference
  | inside {schema inner : Schema} {reference : String} (holds : schema.Holds (.object inner))
      (mentions : Mentions inner reference) :
      Mentions schema reference

section

variable {schema first second : Schema} {node : SchemaNode}

/-- A schema mentions what its reference and the nodes inside it do. -/
theorem Mentions.mono (h : first.Mentions reference)
    (href : first.ref = some reference → second.ref = some reference)
    (hholds : ∀ node, first.Holds node → second.Holds node) : second.Mentions reference := by
  cases h with
  | own ref => exact .own (href ref)
  | inside holds mentions => exact .inside (hholds _ holds) mentions

/-- The same nodes stand inside two schemas that agree on the keywords for them. -/
theorem Holds.congr (h : first.Holds node) (hproperties : first.properties = second.properties)
    (hadditional : first.additionalProperties = second.additionalProperties)
    (hitems : first.items = second.items)
    (hmembers : ∀ composition nodes, Composition.members? composition first = some nodes →
      composition.members? second = some nodes) : second.Holds node := by
  cases h with
  | property declared mem => exact .property (hproperties ▸ declared) mem
  | additional declared => exact .additional (hadditional ▸ declared)
  | item declared => exact .item (hitems ▸ declared)
  | position declared mem => exact .position (hitems ▸ declared) mem
  | member declared mem => exact .member (hmembers _ _ declared) mem

/-- Nothing stands inside the schema without keywords. -/
theorem not_holds_empty : ¬ Holds {} node := by
  intro h
  cases h with
  | property declared => cases declared
  | additional declared => cases declared
  | item declared => cases declared
  | position declared => cases declared
  | @member composition _ _ declared => cases composition <;> cases declared

theorem not_mentions_empty : ¬ Mentions {} reference := by
  intro h
  cases h with
  | own ref => cases ref
  | inside holds => exact not_holds_empty holds

/-! ### Merging and cleaning -/

theorem Mentions.of_withoutRef (h : Mentions { schema with ref := none } reference) :
    schema.Mentions reference := by
  refine h.mono (fun href => by cases href) fun node hnode => ?_
  refine hnode.congr rfl rfl rfl fun composition nodes hnodes => ?_
  cases composition <;> exact hnodes

theorem Holds.of_remove {removed : Composition} (h : (removed.remove schema).Holds node) :
    schema.Holds node := by
  refine h.congr ?_ ?_ ?_ fun composition nodes hnodes => ?_
  · cases removed <;> rfl
  · cases removed <;> rfl
  · cases removed <;> rfl
  · cases removed <;> cases composition <;> first | exact hnodes | cases hnodes

theorem Mentions.of_remove (removed : Composition)
    (h : (removed.remove schema).Mentions reference) : schema.Mentions reference := by
  refine h.mono (fun href => ?_) fun node hnode => hnode.of_remove
  cases removed <;> exact href

theorem Holds.of_settleType (h : schema.settleType.Holds node) : schema.Holds node := by
  refine h.congr (settleType_properties schema) ?_ ?_
    fun composition nodes hnodes => members?_settleType composition schema ▸ hnodes
  all_goals
    obtain ⟨_, _, heq⟩ := settleType_eq schema
    rw [heq]

theorem merge_additionalProperties (first second : Schema) :
    (merge first second).additionalProperties =
      first.additionalProperties.or second.additionalProperties := by
  unfold merge
  split
  · rfl
  · split <;> rfl

theorem merge_items (first second : Schema) :
    (merge first second).items = first.items.or second.items := by
  unfold merge
  split
  · rfl
  · split <;> rfl

/-- A pair of a union is a pair of one of the two lists. -/
theorem mem_union {α : Type} {first second : Keyed α} {pair : String × α}
    (h : pair ∈ Keyed.union first second) : pair ∈ first ∨ pair ∈ second := by
  unfold Keyed.union at h
  induction second generalizing first with
  | nil => exact Or.inl h
  | cons other rest ih =>
    rcases ih h with h | h
    · rcases Keyed.mem_insertNew h with h | rfl
      · exact Or.inl h
      · exact Or.inr (List.mem_cons_self ..)
    · exact Or.inr (List.mem_cons_of_mem _ h)

/-- What stands inside a merged schema stands inside one of the two. -/
theorem Holds.of_merge (h : (merge first second).Holds node) :
    first.Holds node ∨ second.Holds node := by
  cases h with
  | @property properties name node declared mem =>
    rw [merge_properties] at declared
    split at declared
    · cases declared
      exact (mem_union mem).imp Holds.of_getD Holds.of_getD
    · cases declared
  | additional declared =>
    rw [merge_additionalProperties] at declared
    rcases Option.or_eq_some_iff.mp declared with declared | ⟨-, declared⟩
    · exact Or.inl (.additional declared)
    · exact Or.inr (.additional declared)
  | item declared =>
    rw [merge_items] at declared
    rcases Option.or_eq_some_iff.mp declared with declared | ⟨-, declared⟩
    · exact Or.inl (.item declared)
    · exact Or.inr (.item declared)
  | position declared mem =>
    rw [merge_items] at declared
    rcases Option.or_eq_some_iff.mp declared with declared | ⟨-, declared⟩
    · exact Or.inl (.position declared mem)
    · exact Or.inr (.position declared mem)
  | member declared mem =>
    rcases members?_merge_cases first second declared with h | ⟨-, h⟩ | ⟨left, right, hl, hr, rfl⟩
    · exact Or.inl (.member h mem)
    · exact Or.inr (.member h mem)
    · exact (List.mem_append.mp mem).imp (Holds.member hl) (Holds.member hr)

theorem Mentions.of_merge (h : (merge first second).Mentions reference) :
    first.Mentions reference ∨ second.Mentions reference := by
  cases h with
  | own ref =>
    rw [merge_ref] at ref
    exact (Option.or_eq_some_iff.mp ref).imp Mentions.own fun ref => Mentions.own ref.2
  | inside holds mentions =>
    exact holds.of_merge.imp (Mentions.inside · mentions) (Mentions.inside · mentions)

theorem Mentions.of_settleType (h : schema.settleType.Mentions reference) :
    schema.Mentions reference := by
  refine h.mono (fun href => ?_) fun node hnode => hnode.of_settleType
  rwa [settleType_ref] at href

/-- To mention no other references than the schema does is kept by cleaning. -/
theorem mentions_keptByCleaning (P : String → Prop) :
    KeptByCleaning fun schema => ∀ reference, schema.Mentions reference → P reference where
  merge _ _ hfirst hsecond reference h := h.of_merge.elim (hfirst reference) (hsecond reference)
  remove _ _ hschema reference h := hschema reference (Mentions.of_remove _ h)
  settleType _ hschema reference h := hschema reference h.of_settleType
  lone _ _ _ hschema hmembers reference h :=
    hschema reference (.inside (.member hmembers (List.mem_cons_self ..)) h)

/-- Cleaning makes no reference up. -/
theorem Mentions.of_cleanup (h : schema.cleanup.Mentions reference) :
    schema.Mentions reference :=
  (mentions_keptByCleaning schema.Mentions).cleanup (fun _ h => h) reference h

/-- What is mentioned by the schema that is read from a node inside is mentioned. -/
theorem Mentions.of_held {inner : Schema} (h : inner.Mentions reference) (hnode : schema.Holds node)
    (hread : node.toSchema? = some inner) : schema.Mentions reference := by
  cases node with
  | object own =>
    obtain rfl := Option.some.inj hread
    exact .inside hnode h.of_cleanup
  | bool admits =>
    cases admits with
    | true =>
      obtain rfl := Option.some.inj hread
      exact absurd h not_mentions_empty
    | false => cases hread

end

/-! ### Reading -/

section

variable {schema : Schema} {node : SchemaNode} {key : String} {value : Json}

/-! A keyword adds the schemas that it holds, and nothing else. -/

theorem Holds.of_setPlain (h : (setPlain key value schema).Holds node) : schema.Holds node := by
  refine h.congr (setPlain_properties key value schema) ?_ ?_ fun composition nodes hnodes =>
    members?_setPlain key value schema composition ▸ hnodes
  · unfold setPlain
    split <;> rfl
  · unfold setPlain
    split <;> rfl

theorem Holds.of_setNode {inner : SchemaNode} (h : (setNode key node schema).Holds inner) :
    schema.Holds inner ∨ node = inner := by
  unfold setNode at h
  split at h
  · cases h with
    | property declared mem => exact Or.inl (.property declared mem)
    | additional declared => exact Or.inr (Option.some.inj declared)
    | item declared => exact Or.inl (.item declared)
    | position declared mem => exact Or.inl (.position declared mem)
    | @member composition nodes _ declared mem =>
      have hsame : composition.members? schema = some nodes := by
        cases composition <;> exact declared
      exact Or.inl (.member hsame mem)
  · cases h with
    | property declared mem => exact Or.inl (.property declared mem)
    | additional declared => exact Or.inl (.additional declared)
    | item declared =>
      cases declared
      exact Or.inr rfl
    | position declared => cases declared
    | @member composition nodes _ declared mem =>
      have hsame : composition.members? schema = some nodes := by
        cases composition <;> exact declared
      exact Or.inl (.member hsame mem)
  · exact Or.inl h

theorem Holds.of_setNodes {nodes : List SchemaNode} {inner : Schema}
    (h : (setNodes key nodes schema).Holds (.object inner)) :
    schema.Holds (.object inner) ∨ SchemaNode.object inner ∈ nodes := by
  cases h with
  | property declared mem =>
    rw [setNodes_properties] at declared
    exact Or.inl (.property declared mem)
  | additional declared =>
    unfold setNodes at declared
    split at declared <;> first | exact Or.inl (.additional declared) | cases declared
  | item declared =>
    unfold setNodes at declared
    split at declared <;> first | exact Or.inl (.item declared) | cases declared
  | position declared mem =>
    unfold setNodes at declared
    split at declared <;>
      first | exact Or.inl (.position declared mem) | (cases declared; exact Or.inr mem)
  | member declared mem =>
    rcases members?_setNodes_cases declared with declared | rfl
    · exact Or.inl (.member declared mem)
    · exact Or.inr mem

theorem Holds.of_setProperties {properties : Keyed SchemaNode} {inner : SchemaNode}
    (h : Holds { schema with properties := some properties } inner) :
    schema.Holds inner ∨ ∃ name, (name, inner) ∈ properties := by
  cases h with
  | @property _ name _ declared mem =>
    cases declared
    exact Or.inr ⟨name, mem⟩
  | additional declared => exact Or.inl (.additional declared)
  | item declared => exact Or.inl (.item declared)
  | position declared mem => exact Or.inl (.position declared mem)
  | @member composition nodes _ declared mem =>
    have hsame : composition.members? schema = some nodes := by
      cases composition <;> exact declared
    exact Or.inl (.member hsame mem)

/-- A keyword that holds no schema may set the reference. -/
theorem Mentions.of_setPlain (h : (setPlain key value schema).Mentions reference) :
    schema.Mentions reference ∨ (key = "$ref" ∧ value = .str reference) := by
  cases h with
  | own ref =>
    by_cases hkey : key = "$ref"
    · subst hkey
      refine Or.inr ⟨rfl, ?_⟩
      cases value <;> cases ref
      rfl
    · refine Or.inl (.own ?_)
      unfold setPlain at ref
      split at ref <;> first | exact ref | exact absurd rfl hkey
  | inside holds mentions => exact Or.inl (.inside holds.of_setPlain mentions)

/-- A keyword that holds a schema adds what that mentions. -/
theorem Mentions.of_setNode (h : (setNode key node schema).Mentions reference) :
    schema.Mentions reference ∨ ∃ inner, node = .object inner ∧ inner.Mentions reference := by
  cases h with
  | own ref =>
    refine Or.inl (.own ?_)
    unfold setNode at ref
    split at ref <;> exact ref
  | @inside _ inner _ holds mentions =>
    exact holds.of_setNode.imp (Mentions.inside · mentions) fun heq => ⟨inner, heq, mentions⟩

/-- A keyword that holds a list of schemas adds what these mention. -/
theorem Mentions.of_setNodes {nodes : List SchemaNode}
    (h : (setNodes key nodes schema).Mentions reference) :
    schema.Mentions reference ∨
      ∃ inner, SchemaNode.object inner ∈ nodes ∧ inner.Mentions reference := by
  cases h with
  | own ref =>
    refine Or.inl (.own ?_)
    unfold setNodes at ref
    split at ref <;> exact ref
  | @inside _ inner _ holds mentions =>
    exact holds.of_setNodes.imp (Mentions.inside · mentions) fun hmem => ⟨inner, hmem, mentions⟩

/-- Properties add what their schemas mention. -/
theorem Mentions.of_setProperties {properties : Keyed SchemaNode}
    (h : Mentions { schema with properties := some properties } reference) :
    schema.Mentions reference ∨
      ∃ name inner, (name, SchemaNode.object inner) ∈ properties ∧ inner.Mentions reference := by
  cases h with
  | own ref => exact Or.inl (.own ref)
  | @inside _ inner _ holds mentions =>
    refine holds.of_setProperties.imp (Mentions.inside · mentions) ?_
    rintro ⟨name, hmem⟩
    exact ⟨name, inner, hmem, mentions⟩

end

mutual

/-- The schema of some fields mentions what the object of these fields does. -/
theorem mentions_of_ofFields (fields : List (String × Json))
    (h : (ofFields fields).Mentions reference) : (Json.obj fields).Mentions reference := by
  cases fields with
  | nil =>
    rw [ofFields] at h
    exact absurd h not_mentions_empty
  | cons field rest =>
    obtain ⟨key, value⟩ := field
    rw [ofFields] at h
    rcases mentions_of_setKeyword key value _ h with h | ⟨rfl, rfl⟩ | h
    · exact (mentions_of_ofFields rest h).of_fields (List.subset_cons_self ..)
    · exact Json.mentions_own (List.mem_cons_self ..)
    · exact Json.Mentions.of_field h List.mem_cons_self

theorem mentions_of_setKeyword (key : String) (value : Json) (schema : Schema)
    (h : (setKeyword key value schema).Mentions reference) :
    schema.Mentions reference ∨ (key = "$ref" ∧ value = .str reference) ∨
      value.Mentions reference := by
  rw [setKeyword.eq_def] at h
  rcases h.of_setPlain with h | h
  · cases value with
    | null => exact Or.inl h
    -- Such a value stands for a truth value at most, which mentions nothing.
    | bool _ | num _ | str _ =>
      rcases h.of_setNode with h | ⟨inner, heq, -⟩
      · exact Or.inl h
      · cases heq
    | arr items =>
      rcases h.of_setNodes with h | ⟨inner, hinner, h⟩
      · exact Or.inl h
      · obtain ⟨item, hitem, h⟩ := mentions_of_ofItems items inner hinner h
        exact Or.inr (Or.inr (h.of_item hitem))
    | obj fields =>
      dsimp only at h
      split at h
      · rcases h.of_setProperties with h | ⟨name, inner, hinner, h⟩
        · exact Or.inl h
        · obtain ⟨field, hfield, h⟩ := mentions_of_ofNamed fields name inner hinner h
          exact Or.inr (Or.inr (h.of_field hfield))
      · rcases h.of_setNode with h | ⟨inner, heq, h⟩
        · exact Or.inl h
        · cases heq
          exact Or.inr (Or.inr (mentions_of_ofFields fields h))
  · exact Or.inr (Or.inl h)

theorem mentions_of_ofItems (items : List Json) (inner : Schema)
    (hinner : SchemaNode.object inner ∈ ofItems items) (h : inner.Mentions reference) :
    ∃ item ∈ items, item.Mentions reference := by
  cases items with
  | nil =>
    rw [ofItems] at hinner
    cases hinner
  | cons item rest =>
    have hrest : SchemaNode.object inner ∈ ofItems rest →
        ∃ other ∈ item :: rest, other.Mentions reference := by
      intro hinner
      obtain ⟨other, hother, hmentions⟩ := mentions_of_ofItems rest inner hinner h
      exact ⟨other, List.mem_cons_of_mem _ hother, hmentions⟩
    cases item with
    | obj fields =>
      rw [ofItems] at hinner
      rcases List.mem_cons.mp hinner with heq | hinner
      · cases heq
        exact ⟨.obj fields, List.mem_cons_self .., mentions_of_ofFields fields h⟩
      · exact hrest hinner
    | _ => exact hrest ((List.mem_cons.mp hinner).resolve_left (by simp))

theorem mentions_of_ofNamed (fields : List (String × Json)) (name : String) (inner : Schema)
    (hinner : (name, SchemaNode.object inner) ∈ ofNamed fields) (h : inner.Mentions reference) :
    ∃ field ∈ fields, field.2.Mentions reference := by
  cases fields with
  | nil =>
    rw [ofNamed] at hinner
    cases hinner
  | cons field rest =>
    obtain ⟨key, value⟩ := field
    have hrest : (name, SchemaNode.object inner) ∈ ofNamed rest →
        ∃ field ∈ (key, value) :: rest, field.2.Mentions reference := by
      intro hinner
      obtain ⟨field, hfield, hmentions⟩ := mentions_of_ofNamed rest name inner hinner h
      exact ⟨field, List.mem_cons_of_mem _ hfield, hmentions⟩
    cases value with
    | obj fields =>
      rw [ofNamed] at hinner
      rcases List.mem_cons.mp hinner with heq | hinner
      · cases heq
        exact ⟨(name, .obj fields), List.mem_cons_self .., mentions_of_ofFields fields h⟩
      · exact hrest hinner
    | _ => exact hrest ((List.mem_cons.mp hinner).resolve_left (by simp))

end

end Schema

/-- The schema that a value stands for mentions what the value does. -/
theorem SchemaNode.mentions_of_ofJson {value : Json} {schema : Schema}
    (h : ofJson value = .object schema) (hmentions : schema.Mentions reference) :
    value.Mentions reference := by
  cases value with
  | obj fields =>
    cases h
    exact Schema.mentions_of_ofFields fields hmentions
  | _ => cases h

/-- What a reference leads to mentions nothing else than the document does, read as a schema
    too. -/
theorem Reference.mentions_of_resolveNode {document : Json} {target : Schema} {start : String}
    (h : resolveNode document start = some (.object target))
    (hmentions : target.Mentions reference) : document.Mentions reference := by
  obtain ⟨value, hvalue, hnode⟩ := Option.map_eq_some_iff.mp h
  exact mentions_of_resolve hvalue (SchemaNode.mentions_of_ofJson hnode hmentions)

namespace Schema

/-! ### Flattening -/

theorem Mentions.of_foldl_merge {parts : List Schema} {start : Schema}
    (h : (parts.foldl merge start).Mentions reference) :
    start.Mentions reference ∨ ∃ part ∈ parts, part.Mentions reference := by
  induction parts generalizing start with
  | nil => exact Or.inl h
  | cons part rest ih =>
    rcases ih h with h | ⟨other, hother, h⟩
    · rcases h.of_merge with h | h
      · exact Or.inl h
      · exact Or.inr ⟨part, List.mem_cons_self .., h⟩
    · exact Or.inr ⟨other, List.mem_cons_of_mem _ hother, h⟩

/-- A flattened schema mentions what the schema or the document does, and so does what a member
    contributes. -/
theorem keptByFlattening_mentions (document : Json) (reference : String) :
    KeptByFlattening document
      (fun _ schema result => result.Mentions reference →
        schema.Mentions reference ∨ document.Mentions reference)
      (fun _ node contribution => ∀ part, contribution = some part → part.Mentions reference →
        (∃ member, node = .object member ∧ member.Mentions reference) ∨
          document.Mentions reference) where
  plain _ _ _ hmentions := Or.inl hmentions
  composed _ schema members contributions hallOf hcontributions hmentions := by
    -- The result is what the members contribute, merged with the keywords beside them.
    rcases hmentions.of_merge with hmentions | hmentions
    · rcases hmentions.of_foldl_merge with hmentions | ⟨part, hpart, hmentions⟩
      · exact absurd hmentions not_mentions_empty
      · obtain ⟨node, hnode, hmade⟩ := exists_member_of_part hcontributions hpart
        refine (hmade part rfl hmentions).imp_left ?_
        rintro ⟨member, rfl, h⟩
        exact .inside (.of_allOf hallOf hnode) h
    · exact Or.inl (Mentions.of_remove .allOf hmentions)
  bool _ _ _ h := by cases h
  inline _ member _ _ hsiblings part hpart hmentions := by
    cases hpart
    exact (hsiblings hmentions).imp_left fun h => ⟨member, rfl, h.of_withoutRef.of_cleanup⟩
  -- A reference also contributes its target, and that is where the document comes in.
  target _ member _ target siblings base _ _ htarget hsiblings hbase part hpart hmentions := by
    have hown : siblings.Mentions reference →
        (∃ other, SchemaNode.object member = .object other ∧ other.Mentions reference) ∨
          document.Mentions reference := fun hmentions =>
      (hsiblings hmentions).imp_left fun h => ⟨member, rfl, h.of_withoutRef.of_cleanup⟩
    cases hpart
    cases base with
    | none => exact hown hmentions
    | some base =>
      rcases hmentions.of_merge with hmentions | hmentions
      · exact hown hmentions
      · refine Or.inr ?_
        rcases hbase base rfl hmentions with ⟨other, heq, hmentions⟩ | hmentions
        · cases heq
          exact Reference.mentions_of_resolveNode htarget hmentions
        · exact hmentions
  skipped _ _ _ _ _ _ h := by cases h

/-! ### Walking -/

section

variable {schema : Schema} {place : Option String}

/-- A walk goes on to nodes that stand right inside the schema. -/
theorem holds_of_visit {positions : List (SchemaNode × Option String)}
    (h : schema.visit place = .positions positions) {inner : SchemaNode}
    {innerPlace : Option String} (hmem : (inner, innerPlace) ∈ positions) :
    schema.Holds inner := by
  unfold visit at h
  split at h
  · next properties hproperties =>
    cases h
    obtain ⟨⟨name, node⟩, hproperty, heq⟩ := List.mem_map.mp hmem
    cases heq
    exact .property hproperties hproperty
  · split at h
    · cases h
      obtain ⟨node, hnode, heq⟩ := List.mem_map.mp hmem
      cases heq
      exact .additional (Option.mem_toList.mp hnode)
    · split at h
      · cases h
      · split at h
        · cases h
        · split at h
          · cases h
          · split at h
            · next members hmembers =>
              cases h
              obtain ⟨node, hnode, heq⟩ := List.mem_map.mp hmem
              cases heq
              rcases Option.or_eq_some_iff.mp hmembers with hany | ⟨-, hone⟩
              · exact .of_anyOf hany hnode
              · exact .of_oneOf hone hnode
            · split at h
              · next item hitem =>
                cases h
                cases List.mem_singleton.mp hmem
                exact .item hitem
              · next items hitems =>
                cases h
                obtain ⟨node, hnode, heq⟩ := List.mem_map.mp hmem
                cases heq
                exact .position hitems hnode
              · cases h
                cases hmem

/-- A walk follows the reference of the schema. -/
theorem ref_of_visit {start : String} (h : schema.visit place = .reference start) :
    schema.ref = some start := by
  unfold visit at h
  split at h
  · cases h
  · split at h
    · cases h
    · split at h
      · cases h
      · split at h
        · next href =>
          cases h
          exact href
        · split at h
          · cases h
          · split at h <;> cases h

end

end Schema
end TypedClient
