/-
  TypedClient.Proofs.Schema.LoneAllOf

  Schemas that compose nothing: no `allOf` list in them has two members or more.  Cleaning and
  flattening keep that, and what then stands inside a schema is smaller than the schema was, so
  that going inside comes to an end.
-/
import TypedClient.Proofs.Schema.Flatten
import TypedClient.Proofs.Schema.Mentions

namespace TypedClient
namespace Schema

variable {schema first second : Schema} {node : SchemaNode}

/-! ## Going inside -/

/-- A node inside a schema is smaller than the schema. -/
theorem Holds.sizeOf_lt (h : schema.Holds node) : sizeOf node < sizeOf schema := by
  cases h with
  | @property properties name node declared mem =>
    have hpair := List.sizeOf_lt_of_mem mem
    have hnode : sizeOf (name, node) = 1 + sizeOf name + sizeOf node := by simp
    cases schema
    simp_all
    omega
  | additional declared =>
    cases schema
    simp_all
    omega
  | item declared =>
    cases schema
    simp_all
    omega
  | position declared mem =>
    have hnode := List.sizeOf_lt_of_mem mem
    cases schema
    simp_all
    omega
  | @member composition nodes node declared mem =>
    have hnode := List.sizeOf_lt_of_mem mem
    cases composition <;> cases schema <;> simp_all [Composition.members?] <;> omega

/-- All nodes right inside the schema are smaller than the bound. -/
def Below (bound : Nat) (schema : Schema) : Prop := ∀ node, schema.Holds node → sizeOf node < bound

theorem below_keptByCleaning (bound : Nat) : KeptByCleaning (Below bound) where
  merge _ _ hfirst hsecond node hnode := hnode.of_merge.elim (hfirst node) (hsecond node)
  remove _ _ h node hnode := h node hnode.of_remove
  settleType _ h node hnode := h node hnode.of_settleType
  lone composition schema member h hmembers node hnode := by
    have hmember := h (.object member) (.member hmembers (List.mem_cons_self ..))
    have hobject : sizeOf (SchemaNode.object member) = 1 + sizeOf member := by simp
    have hnode := hnode.sizeOf_lt
    omega

/-- What stands inside a cleaned schema is smaller than the schema was. -/
theorem sizeOf_lt_of_holds_cleanup (h : schema.cleanup.Holds node) :
    sizeOf node < sizeOf (SchemaNode.object schema) := by
  have hobject : sizeOf (SchemaNode.object schema) = 1 + sizeOf schema := by simp
  have hbelow : Below (sizeOf schema) schema.cleanup :=
    (below_keptByCleaning _).cleanup fun node hnode => hnode.sizeOf_lt
  have hnode := hbelow node h
  omega

/-! ## No composition of several members -/

/-- No `allOf` list of the schema, or of a schema inside it, has two members or more. -/
inductive LoneAllOf : Schema → Prop where
  | intro {schema : Schema}
      (lone : ∀ nodes, schema.allOf = some nodes → nodes.length ≤ 1)
      (inside : ∀ inner, schema.Holds (.object inner) → LoneAllOf inner) :
      LoneAllOf schema

theorem LoneAllOf.lone (h : LoneAllOf schema) :
    ∀ nodes, schema.allOf = some nodes → nodes.length ≤ 1 := by
  cases h with
  | intro lone _ => exact lone

theorem LoneAllOf.inside (h : LoneAllOf schema) :
    ∀ inner, schema.Holds (.object inner) → LoneAllOf inner := by
  cases h with
  | intro _ inside => exact inside

theorem loneAllOf_empty : LoneAllOf empty :=
  .intro (fun _ h => by cases h) fun _ h => absurd h not_holds_empty

theorem loneAllOf_keptByCleaning : KeptByCleaning LoneAllOf where
  merge first second hfirst hsecond := by
    refine .intro (fun nodes h => ?_) fun inner h =>
      h.of_merge.elim (hfirst.inside inner) (hsecond.inside inner)
    -- Two lists do not become one: the first schema's is kept.
    rw [merge_allOf] at h
    rcases Option.or_eq_some_iff.mp h with h | ⟨-, h⟩
    · exact hfirst.lone nodes h
    · exact hsecond.lone nodes h
  remove composition schema h := by
    refine .intro (fun nodes hnodes => h.lone nodes ?_) fun inner hinner =>
      h.inside inner hinner.of_remove
    cases composition with
    | allOf => cases hnodes
    | anyOf => exact hnodes
    | oneOf => exact hnodes
  settleType schema h := by
    refine .intro (fun nodes hnodes => h.lone nodes ?_) fun inner hinner =>
      h.inside inner hinner.of_settleType
    exact (members?_settleType .allOf schema).symm.trans hnodes
  lone composition schema member h hmembers :=
    h.inside member (.member hmembers (List.mem_cons_self ..))

theorem LoneAllOf.cleanup (h : LoneAllOf schema) : LoneAllOf schema.cleanup :=
  loneAllOf_keptByCleaning.cleanup h

/-- The composition of a clean schema, if it has one, has at most one member, which is a truth
    value: flattening just takes it away. -/
theorem LoneAllOf.flattens {document : Json} {following : List String} {merged : Schema}
    (h : LoneAllOf schema) (hnormal : Normal schema)
    (hflattens : Flattens document following schema merged) :
    merged = schema ∨ merged = Schema.merge empty (Composition.allOf.remove schema) := by
  cases hallOf : schema.allOf with
  | none => exact Or.inl (hflattens.of_allOf_eq_none hallOf)
  | some nodes =>
    refine Or.inr ?_
    obtain ⟨contributions, hcontributions, rfl⟩ := hflattens.of_allOf_eq_some hallOf
    have hnone : contributions.filterMap id = [] := by
      have hlength := h.lone nodes hallOf
      match nodes, hallOf, hlength, hcontributions with
      | [], _, _, .nil => rfl
      | [.bool admits], _, _, .cons hmember .nil =>
        obtain ⟨fuel, hmember⟩ := hmember
        cases fuel with
        | zero => cases hmember
        | succ fuel =>
          rw [memberWithin_bool] at hmember
          cases hmember
          rfl
      | [.object member], hallOf, _, _ =>
        have hmembers : Composition.allOf.members? schema = some [.object member] := hallOf
        cases hnormal.lone .allOf List.not_mem_nil _ hmembers
    rw [hnone]
    rfl

section

variable {document : Json} {following : List String} {merged : Schema}

/-- Flattening puts nothing into a schema that composes nothing. -/
theorem LoneAllOf.holds_of_flattens (h : LoneAllOf schema) (hnormal : Normal schema)
    (hflattens : Flattens document following schema merged) (hnode : merged.Holds node) :
    schema.Holds node := by
  rcases h.flattens hnormal hflattens with rfl | rfl
  · exact hnode
  · exact hnode.of_merge.elim (fun h => absurd h not_holds_empty) (·.of_remove)

theorem LoneAllOf.mentions_of_flattens {reference : String} (h : LoneAllOf schema)
    (hnormal : Normal schema) (hflattens : Flattens document following schema merged)
    (hmentions : merged.Mentions reference) : schema.Mentions reference := by
  rcases h.flattens hnormal hflattens with rfl | rfl
  · exact hmentions
  · exact hmentions.of_merge.elim (fun h => absurd h not_mentions_empty) (.of_remove .allOf)

end

/-! ## Reading -/

section

variable {key : String} {value : Json}

theorem LoneAllOf.setPlain (h : LoneAllOf schema) :
    LoneAllOf (Schema.setPlain key value schema) := by
  refine .intro (fun nodes hnodes => h.lone nodes ?_) fun inner hinner =>
    h.inside inner hinner.of_setPlain
  have hmembers : Composition.allOf.members? (Schema.setPlain key value schema) = some nodes :=
    hnodes
  rwa [members?_setPlain] at hmembers

theorem LoneAllOf.setNode (h : LoneAllOf schema)
    (hnode : ∀ inner, node = .object inner → LoneAllOf inner) :
    LoneAllOf (Schema.setNode key node schema) := by
  refine .intro (fun nodes hnodes => h.lone nodes ?_) fun inner hinner =>
    hinner.of_setNode.elim (h.inside inner) (hnode inner)
  unfold Schema.setNode at hnodes
  split at hnodes <;> exact hnodes

theorem LoneAllOf.setNodes {nodes : List SchemaNode} (h : LoneAllOf schema)
    (hlength : key = "allOf" → nodes.length ≤ 1)
    (hnodes : ∀ inner, SchemaNode.object inner ∈ nodes → LoneAllOf inner) :
    LoneAllOf (Schema.setNodes key nodes schema) := by
  refine .intro (fun others hothers => ?_) fun inner hinner =>
    hinner.of_setNodes.elim (h.inside inner) (hnodes inner)
  unfold Schema.setNodes at hothers
  split at hothers
  · exact h.lone others hothers
  · exact Option.some.inj hothers ▸ hlength rfl
  · exact h.lone others hothers
  · exact h.lone others hothers
  · exact h.lone others hothers
  · exact h.lone others hothers

theorem LoneAllOf.setProperties {properties : Keyed SchemaNode} (h : LoneAllOf schema)
    (hproperties : ∀ name inner, (name, SchemaNode.object inner) ∈ properties → LoneAllOf inner) :
    LoneAllOf { schema with properties := some properties } :=
  .intro h.lone fun inner hinner => hinner.of_setProperties.elim (h.inside inner)
    fun ⟨name, hmem⟩ => hproperties name inner hmem

end

end Schema

namespace Json

/-- No object inside the value has an `allOf` list of two items or more. -/
def LoneAllOf (value : Json) : Prop :=
  ∀ fields items, .obj fields ∈ value.parts → ("allOf", .arr items) ∈ fields → items.length ≤ 1

variable {value : Json} {fields : List (String × Json)} {items : List Json}

theorem LoneAllOf.field (h : (Json.obj fields).LoneAllOf) {field : String × Json}
    (hfield : field ∈ fields) : field.2.LoneAllOf := by
  refine fun inner items hinner => h inner items ?_
  rw [parts]
  exact List.mem_cons_of_mem _ (parts_subset_partsOfFields hfield hinner)

theorem LoneAllOf.item (h : (Json.arr items).LoneAllOf) {item : Json} (hitem : item ∈ items) :
    item.LoneAllOf := by
  refine fun inner others hinner => h inner others ?_
  rw [parts]
  exact List.mem_cons_of_mem _ (parts_subset_partsOfItems hitem hinner)

theorem LoneAllOf.of_subset {rest : List (String × Json)} (h : (Json.obj fields).LoneAllOf)
    (hrest : rest ⊆ fields) : (Json.obj rest).LoneAllOf := by
  intro inner items hinner hmem
  rw [parts] at hinner
  rcases List.mem_cons.mp hinner with heq | hinner
  · obtain rfl := Json.obj.inj heq
    exact h fields items (self_mem_parts _) (hrest hmem)
  · obtain ⟨field, hfield, hpart⟩ := exists_of_mem_partsOfFields hinner
    exact h.field (hrest hfield) inner items hpart hmem

/-- The lists of a value can be looked through one by one. -/
theorem loneAllOf_of_all (h : value.parts.all (fun
    | .obj fields => fields.all fun
      | (key, .arr items) => key != "allOf" || items.length ≤ 1
      | _ => true
    | _ => true) = true) : value.LoneAllOf := by
  intro fields items hfields hmem
  have hobject := List.all_eq_true.mp h _ hfields
  have hfield := List.all_eq_true.mp hobject _ hmem
  simpa using hfield

end Json

namespace Schema

theorem length_ofItems (items : List Json) : (ofItems items).length = items.length := by
  induction items with
  | nil => rfl
  | cons item rest ih => cases item <;> exact congrArg Nat.succ ih

mutual

/-- The schema of some fields has no longer lists than the object of these fields. -/
theorem loneAllOf_ofFields (fields : List (String × Json)) (h : (Json.obj fields).LoneAllOf) :
    LoneAllOf (ofFields fields) := by
  cases fields with
  | nil =>
    rw [ofFields]
    exact loneAllOf_empty
  | cons field rest =>
    obtain ⟨key, value⟩ := field
    rw [ofFields]
    have hlength : ∀ items, key = "allOf" → value = .arr items → items.length ≤ 1 := by
      rintro items rfl rfl
      exact h _ items (Json.self_mem_parts _) (List.mem_cons_self ..)
    have hrest : LoneAllOf (ofFields rest) :=
      loneAllOf_ofFields rest (h.of_subset (List.subset_cons_self ..))
    exact loneAllOf_setKeyword key value hrest hlength (h.field (List.mem_cons_self ..))

theorem loneAllOf_setKeyword (key : String) (value : Json) {schema : Schema}
    (hschema : LoneAllOf schema)
    (hlength : ∀ items, key = "allOf" → value = .arr items → items.length ≤ 1)
    (h : value.LoneAllOf) : LoneAllOf (setKeyword key value schema) := by
  rw [setKeyword.eq_def]
  refine LoneAllOf.setPlain ?_
  cases value with
  | null => exact hschema
  -- Such a value stands for a truth value at most.
  | bool _ | num _ | str _ => exact hschema.setNode fun _ heq => by cases heq
  | arr items =>
    refine hschema.setNodes (fun hkey => ?_) fun inner hinner =>
      loneAllOf_ofItems items (fun item hitem => h.item hitem) inner hinner
    rw [length_ofItems]
    exact hlength items hkey rfl
  | obj fields =>
    dsimp only
    split
    · exact hschema.setProperties fun name inner hinner =>
        loneAllOf_ofNamed fields (fun field hfield => h.field hfield) name inner hinner
    · refine hschema.setNode fun inner heq => ?_
      cases heq
      exact loneAllOf_ofFields fields h

theorem loneAllOf_ofItems (items : List Json) (h : ∀ item ∈ items, item.LoneAllOf) (inner : Schema)
    (hinner : SchemaNode.object inner ∈ ofItems items) : LoneAllOf inner := by
  cases items with
  | nil =>
    rw [ofItems] at hinner
    cases hinner
  | cons item rest =>
    have hrest : SchemaNode.object inner ∈ ofItems rest → LoneAllOf inner :=
      loneAllOf_ofItems rest (fun other hother => h other (List.mem_cons_of_mem _ hother)) inner
    cases item with
    | obj fields =>
      rw [ofItems] at hinner
      rcases List.mem_cons.mp hinner with heq | hinner
      · cases heq
        exact loneAllOf_ofFields fields (h _ (List.mem_cons_self ..))
      · exact hrest hinner
    | _ => exact hrest ((List.mem_cons.mp hinner).resolve_left (by simp))

theorem loneAllOf_ofNamed (fields : List (String × Json))
    (h : ∀ field ∈ fields, field.2.LoneAllOf) (name : String) (inner : Schema)
    (hinner : (name, SchemaNode.object inner) ∈ ofNamed fields) : LoneAllOf inner := by
  cases fields with
  | nil =>
    rw [ofNamed] at hinner
    cases hinner
  | cons field rest =>
    obtain ⟨key, value⟩ := field
    have hrest : (name, SchemaNode.object inner) ∈ ofNamed rest → LoneAllOf inner :=
      loneAllOf_ofNamed rest (fun other hother => h other (List.mem_cons_of_mem _ hother)) name
        inner
    cases value with
    | obj fields =>
      rw [ofNamed] at hinner
      rcases List.mem_cons.mp hinner with heq | hinner
      · cases heq
        exact loneAllOf_ofFields fields (h _ (List.mem_cons_self ..))
      · exact hrest hinner
    | _ => exact hrest ((List.mem_cons.mp hinner).resolve_left (by simp))

end

end Schema

/-! ## Nodes -/

namespace SchemaNode

open Schema

variable {document : Json} {node stored : SchemaNode} {schema : Schema}

/-- The schema that is read from the node, if it is one, composes nothing. -/
def LoneAllOf (node : SchemaNode) : Prop :=
  ∀ schema, node.toSchema? = some schema → schema.LoneAllOf

theorem loneAllOf_object (h : schema.LoneAllOf) : LoneAllOf (.object schema) := by
  intro read hread
  exact Option.some.inj hread ▸ h.cleanup

/-- A node inside a schema that composes nothing. -/
theorem loneAllOf_of_holds (h : schema.LoneAllOf) (hnode : schema.Holds node) : node.LoneAllOf := by
  cases node with
  | object inner => exact loneAllOf_object (h.inside inner hnode)
  | bool admits =>
    intro read hread
    cases admits with
    | true => exact Option.some.inj hread ▸ loneAllOf_empty
    | false => cases hread

/-- What a schema that composes nothing is flattened to composes nothing. -/
theorem loneAllOf_of_flattens {following : List String} {merged : Schema} (h : schema.LoneAllOf)
    (hnormal : Normal schema) (hflattens : Flattens document following schema merged) :
    merged.LoneAllOf := by
  rcases h.flattens hnormal hflattens with rfl | rfl
  · exact h
  · exact loneAllOf_keptByCleaning.merge _ _ loneAllOf_empty
      (loneAllOf_keptByCleaning.remove .allOf schema h)

/-- What stands inside the schema that is read from a node is smaller than the node. -/
theorem sizeOf_lt_of_holds {inner : SchemaNode} (hschema : node.toSchema? = some schema)
    (h : schema.Holds inner) : sizeOf inner < sizeOf node := by
  cases node with
  | object own =>
    obtain rfl := Option.some.inj hschema
    exact sizeOf_lt_of_holds_cleanup h
  | bool admits =>
    cases admits with
    | true =>
      obtain rfl := Option.some.inj hschema
      exact absurd h not_holds_empty
    | false => cases hschema

/-- What is stored for a node composes nothing if the node does not. -/
theorem Stores.loneAllOf (h : node.Stores document stored) (hnode : node.LoneAllOf) :
    stored.LoneAllOf := by
  cases node with
  | bool admits => rwa [stores_bool_iff.mp h]
  | object schema =>
    obtain ⟨result, hresult, rfl⟩ := stores_object_iff.mp h
    have hclean := hnode schema.cleanup rfl
    exact loneAllOf_object (loneAllOf_of_flattens hclean (normal_cleanup schema) hresult)

/-- A value without such a list is read as a node that composes nothing. -/
theorem loneAllOf_ofJson {value : Json} (h : value.LoneAllOf) : (ofJson value).LoneAllOf := by
  cases value with
  | obj fields => exact loneAllOf_object (loneAllOf_ofFields fields h)
  | bool admits =>
    intro read hread
    cases admits with
    | true => exact Option.some.inj hread ▸ loneAllOf_empty
    | false => cases hread
  | null | num _ | str _ | arr _ =>
    intro read hread
    exact Option.some.inj hread ▸ loneAllOf_empty

end SchemaNode

/-- A reference into a document without such a list leads to a node that composes nothing. -/
theorem Reference.loneAllOf_of_resolveNode {document : Json} {target : SchemaNode}
    {reference : String} (h : document.LoneAllOf)
    (htarget : Reference.resolveNode document reference = some target) : target.LoneAllOf := by
  obtain ⟨value, hvalue, rfl⟩ := Option.map_eq_some_iff.mp htarget
  exact SchemaNode.loneAllOf_ofJson fun fields items hfields =>
    h fields items (parts_subset_of_resolve hvalue hfields)

end TypedClient
