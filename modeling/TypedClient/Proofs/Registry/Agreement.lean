/-
  TypedClient.Proofs.Registry.Agreement

  Registration reads a document only through references.  So when two documents have the same
  targets for every reference that is written in the second one, registering a schema of the second
  document does the same with either.

  What keeps this going is that no schema on the way has a reference of its own: each one is local
  to the second document, whose references are the only ones that it mentions.
-/
import TypedClient.Proofs.Registry.Soundness
import TypedClient.Proofs.Schema.Mentions

namespace TypedClient

/-- The references that the schema mentions are references of the document. -/
def Schema.Local (document : Json) (schema : Schema) : Prop :=
  ∀ reference, schema.Mentions reference → document.Mentions reference

/-- The node is a truth value or a local schema. -/
def SchemaNode.Local (document : Json) (node : SchemaNode) : Prop :=
  ∀ schema, node = .object schema → schema.Local document

/-- Every reference of the second document leads to the same schema in both. -/
def SameTargets (first second : Json) : Prop :=
  ∀ reference, second.Mentions reference →
    Reference.resolveNode first reference = Reference.resolveNode second reference

variable {first second : Json}

namespace Schema

variable {document : Json} {schema inner : Schema} {node : SchemaNode}

theorem Local.object (h : schema.Local document) : (SchemaNode.object schema).Local document := by
  intro other heq
  cases heq
  exact h

theorem Local.cleanup (h : schema.Local document) : schema.cleanup.Local document :=
  fun reference hmentions => h reference hmentions.of_cleanup

theorem Local.withoutRef (h : schema.Local document) :
    Local document { schema with ref := none } :=
  fun reference hmentions => h reference hmentions.of_withoutRef

/-- What stands inside a local schema is local. -/
theorem Local.of_holds (h : schema.Local document) (hholds : schema.Holds node) :
    node.Local document := by
  rintro inner rfl
  exact fun reference hmentions => h reference (.inside hholds hmentions)

/-- The target of a reference is local to the document that it is in. -/
theorem local_of_resolveNode {reference : String} {target : SchemaNode}
    (h : Reference.resolveNode document reference = some target) : target.Local document := by
  rintro schema rfl
  exact fun _ hmentions => Reference.mentions_of_resolveNode h hmentions

/-- A local schema is flattened to a local one. -/
theorem Local.flatten {fuel : Nat} {following : List String} {result : Schema}
    (h : schema.Local document) (hresult : flattenWithin document fuel following schema =
      some result) : result.Local document := by
  intro reference hmentions
  rcases (keptByFlattening_mentions document reference).flattens ⟨fuel, hresult⟩ hmentions with
    hmentions | hmentions
  · exact h reference hmentions
  · exact hmentions

/-- Local schemas are flattened alike. -/
theorem flatten_congr (h : SameTargets first second) (fuel : Nat) :
    (∀ following schema, schema.Local second →
      flattenWithin first fuel following schema = flattenWithin second fuel following schema) ∧
    (∀ following node, node.Local second →
      memberWithin first fuel following node = memberWithin second fuel following node) := by
  induction fuel with
  -- Each function calls the other with one unit less, so the two go together.
  | zero => exact ⟨fun _ _ _ => rfl, fun _ _ _ => rfl⟩
  | succ fuel ih =>
    obtain ⟨hschema, hmember⟩ := ih
    constructor
    · intro following schema hlocal
      rw [flattenWithin_succ, flattenWithin_succ]
      cases hallOf : schema.allOf with
      | none => rfl
      | some members =>
        have hmembers : members.mapM (memberWithin first fuel following) =
            members.mapM (memberWithin second fuel following) := by
          refine mapM_congr fun node hnode => hmember following node ?_
          exact hlocal.of_holds (.of_allOf hallOf hnode)
        dsimp only
        rw [hmembers]
    · intro following node hlocal
      cases node with
      | bool admits => rw [memberWithin_bool, memberWithin_bool]
      | object member =>
        have hclean : member.cleanup.Local second := (hlocal member rfl).cleanup
        rw [memberWithin_object, memberWithin_object, hschema following _ hclean.withoutRef]
        cases href : member.cleanup.ref with
        | none => rfl
        | some reference =>
          dsimp only
          rw [h reference (hclean reference (.own href))]
          split
          · rfl
          · split
            · next target htarget =>
              rw [hmember _ _ (local_of_resolveNode htarget)]
            · rfl

end Schema

namespace SchemaNode

variable {document : Json} {node : SchemaNode} {schema : Schema}

theorem Local.cleanup (h : node.Local document) : node.cleanup.Local document := by
  cases node with
  | bool admits => exact h
  | object schema => exact (h schema rfl).cleanup.object

theorem Local.toSchema? (h : node.Local document) (hschema : node.toSchema? = some schema) :
    schema.Local document := by
  cases node with
  | object own =>
    cases hschema
    exact (h own rfl).cleanup
  | bool admits =>
    cases admits with
    | true =>
      cases hschema
      exact fun _ hmentions => absurd hmentions Schema.not_mentions_empty
    | false => cases hschema

theorem flattenAllOf?_congr (h : SameTargets first second) (fuel : Nat)
    (hlocal : node.Local second) :
    node.flattenAllOf? first fuel = node.flattenAllOf? second fuel := by
  cases node with
  | bool admits => rfl
  | object schema =>
    have hflatten := (Schema.flatten_congr h fuel).1 [] schema (hlocal schema rfl)
    unfold flattenAllOf? Schema.resolveAllOf?
    dsimp only
    rw [hflatten]

theorem Local.flattenAllOf? {fuel : Nat} {stored : SchemaNode} (h : node.Local document)
    (hstored : node.flattenAllOf? document fuel = some stored) : stored.Local document := by
  cases node with
  | bool admits =>
    cases hstored
    exact h
  | object schema =>
    unfold SchemaNode.flattenAllOf? at hstored
    dsimp only at hstored
    split at hstored
    · obtain ⟨result, hresult, rfl⟩ := Option.map_eq_some_iff.mp hstored
      exact ((h schema rfl).flatten hresult).object
    · cases hstored
      exact h

/-- The schema of a local value is local. -/
theorem local_ofJson {value : Json}
    (h : ∀ reference, value.Mentions reference → document.Mentions reference) :
    (ofJson value).Local document :=
  fun _ heq reference hmentions => h reference (mentions_of_ofJson heq hmentions)

end SchemaNode

namespace Registry

/-! ## Walks and calls -/

/-- A reference of the second document is registered alike, if its target is walked alike. -/
theorem register_congr_of_walk (h : SameTargets first second) {fuel : Nat}
    (hwalk : ∀ registry node place, SchemaNode.Local second node →
      walk first fuel registry node place = walk second fuel registry node place)
    (registry : Registry) {reference : String} (hreference : second.Mentions reference)
    (asStruct : Bool) : registry.register first fuel reference asStruct =
      registry.register second fuel reference asStruct := by
  unfold register registerWith
  dsimp only
  rw [h reference hreference]
  split
  · rfl
  · cases htarget : Reference.resolveNode second reference with
    | none => rfl
    | some target =>
      have hclean : target.cleanup.Local second := (Schema.local_of_resolveNode htarget).cleanup
      dsimp only
      rw [SchemaNode.flattenAllOf?_congr h fuel hclean]
      refine Option.bind_congr fun stored hstored => ?_
      rw [hwalk _ _ _ (hclean.flattenAllOf? hstored)]

/-- A local node is walked alike. -/
theorem walk_congr (h : SameTargets first second) (fuel : Nat) (registry : Registry)
    (node : SchemaNode) (place : Option String) (hlocal : node.Local second) :
    walk first fuel registry node place = walk second fuel registry node place := by
  induction fuel generalizing registry node place with
  | zero => rfl
  | succ fuel ih =>
    cases hnode : node.toSchema? with
    | none => rw [walk_of_none hnode, walk_of_none hnode]
    | some schema =>
      have hschema : schema.Local second := hlocal.toSchema? hnode
      have hflatten := (Schema.flatten_congr h fuel).1 [] schema hschema
      cases hvisit : schema.visit place with
      | positions positions =>
        rw [walk_positions hnode hvisit, walk_positions hnode hvisit]
        -- A walk goes on to what stands inside a local schema, which is local.
        refine foldlM_congr (fun position hposition registry => ?_) registry
        exact ih registry position.1 position.2
          (hschema.of_holds (Schema.holds_of_visit hvisit hposition))
      | enumeration => rw [walk_enumeration hnode hvisit, walk_enumeration hnode hvisit]
      | reference reference =>
        rw [walk_reference hnode hvisit, walk_reference hnode hvisit]
        exact register_congr_of_walk h ih registry
          (hschema reference (.own (Schema.ref_of_visit hvisit))) true
      | composition =>
        have hresolve : schema.resolveAllOf? first fuel = schema.resolveAllOf? second fuel :=
          hflatten
        have hmerged : ∀ merged, schema.resolveAllOf? second fuel = some merged →
            ∀ registry place, walk first fuel registry (.object merged) place =
              walk second fuel registry (.object merged) place :=
          fun merged hmerged registry place => ih registry _ place (hschema.flatten hmerged).object
        cases place with
        | none =>
          rw [walk_composition_none hnode hvisit, walk_composition_none hnode hvisit, hresolve]
          exact Option.bind_congr fun merged heq => hmerged merged heq registry none
        | some parent =>
          rw [walk_composition_some hnode hvisit, walk_composition_some hnode hvisit, hresolve]
          refine Option.bind_congr fun merged heq => ?_
          rw [hmerged merged heq]

theorem register_congr (h : SameTargets first second) (fuel : Nat) (registry : Registry)
    {reference : String} (hreference : second.Mentions reference) (asStruct : Bool) :
    registry.register first fuel reference asStruct =
      registry.register second fuel reference asStruct :=
  register_congr_of_walk h (walk_congr h fuel) registry hreference asStruct

/-- A local schema is added alike. -/
theorem add_congr (h : SameTargets first second) (fuel : Nat) (registry : Registry)
    (name : String) {root : SchemaNode} (hlocal : root.Local second) (asStruct : Bool) :
    registry.add first fuel name root asStruct = registry.add second fuel name root asStruct := by
  have hclean : root.cleanup.Local second := hlocal.cleanup
  unfold add
  dsimp only
  cases href : root.cleanup.object?.bind (·.ref) with
  | some reference =>
    obtain ⟨schema, hschema, href⟩ := Option.bind_eq_some_iff.mp href
    have hreference : second.Mentions reference := by
      cases hroot : root.cleanup with
      | bool admits =>
        rw [hroot] at hschema
        cases hschema
      | object own =>
        rw [hroot] at hschema
        cases hschema
        exact hclean schema hroot reference (.own href)
    dsimp only
    rw [register_congr h fuel registry hreference]
  | none =>
    dsimp only
    rw [SchemaNode.flattenAllOf?_congr h fuel hclean]
    split
    · rfl
    · refine Option.bind_congr fun stored hstored => ?_
      rw [walk_congr h fuel registry stored _ (hclean.flattenAllOf? hstored)]

/-- Calls of the second document lead to the same registry in the first. -/
theorem Adds.congr (h : SameTargets first second) {requests : List Request} {registry : Registry}
    (hadds : Adds second requests registry)
    (hlocal : ∀ request ∈ requests, request.root.Local second) : Adds first requests registry := by
  induction hadds with
  | nil => exact .nil
  | @snoc requests before after request fuel answer _ hlast ih =>
    have hfirst := ih fun other hother => hlocal other (List.mem_append_left _ hother)
    have hrequest := hlocal request (List.mem_append_right _ (List.mem_singleton.mpr rfl))
    rw [← add_congr h fuel before request.name hrequest] at hlast
    exact hfirst.snoc request hlast

end Registry
end TypedClient
