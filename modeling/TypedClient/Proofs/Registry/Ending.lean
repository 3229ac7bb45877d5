/-
  TypedClient.Proofs.Registry.Ending

  When registering ends.  Fuel only bounds the recursion, and more of it keeps every answer.

  A walk goes inside a schema until it comes to references, and the target of a reference is walked
  only when the reference is marked first.  Where nothing is composed, going inside leads to smaller
  nodes.  So registering ends however references lead back to each other: a target mentions
  references of the document alone, and each one that is marked leaves fewer of these.
-/
import TypedClient.Proofs.Registry.Agreement
import TypedClient.Proofs.Schema.LoneAllOf

namespace TypedClient

variable {document : Json}

/-! ## More fuel -/

theorem SchemaNode.flattenAllOf?_refines {fuel more : Nat} (h : fuel ≤ more) (node : SchemaNode) :
    Refines (node.flattenAllOf? document fuel) (node.flattenAllOf? document more) := by
  cases node with
  | bool admits => exact Refines.refl _
  | object schema =>
    unfold flattenAllOf?
    dsimp only
    split
    · exact (Schema.flattenWithin_refines h [] schema).map _
    · exact Refines.refl _

namespace Registry

section

variable {fuel more : Nat}

theorem register_refines_of_walk
    (hwalk : ∀ registry node place, Refines (walk document fuel registry node place)
      (walk document more registry node place)) (h : fuel ≤ more) (registry : Registry)
    (reference : String) (asStruct : Bool) :
    Refines (registry.register document fuel reference asStruct)
      (registry.register document more reference asStruct) := by
  unfold register registerWith
  dsimp only
  split
  · exact Refines.refl _
  · split
    · exact Refines.refl _
    · next target _ =>
      exact (SchemaNode.flattenAllOf?_refines h target.cleanup).bind fun stored _ =>
        (hwalk _ stored _).bind fun _ _ => Refines.refl _

/-- One more unit of fuel keeps what a walk leads to. -/
theorem walk_refines_succ (fuel : Nat) (registry : Registry) (node : SchemaNode)
    (place : Option String) : Refines (walk document fuel registry node place)
      (walk document (fuel + 1) registry node place) := by
  induction fuel generalizing registry node place with
  | zero => exact Refines.of_none _
  | succ fuel ih =>
    cases hnode : node.toSchema? with
    | none =>
      rw [walk_of_none hnode, walk_of_none hnode]
      exact Refines.refl _
    | some schema =>
      have hflatten : Refines (schema.resolveAllOf? document fuel)
          (schema.resolveAllOf? document (fuel + 1)) :=
        Schema.flattenWithin_refines (Nat.le_succ fuel) [] schema
      cases hvisit : schema.visit place with
      | positions positions =>
        rw [walk_positions hnode hvisit, walk_positions hnode hvisit]
        exact Refines.foldlM (fun registry (position : SchemaNode × Option String) =>
          ih registry position.1 position.2) positions registry
      | enumeration =>
        rw [walk_enumeration hnode hvisit, walk_enumeration hnode hvisit]
        exact Refines.refl _
      | reference reference =>
        rw [walk_reference hnode hvisit, walk_reference hnode hvisit]
        exact register_refines_of_walk ih (Nat.le_succ fuel) registry reference true
      | composition =>
        cases place with
        | none =>
          rw [walk_composition_none hnode hvisit, walk_composition_none hnode hvisit]
          exact hflatten.bind fun merged _ => ih registry (.object merged) none
        | some parent =>
          rw [walk_composition_some hnode hvisit, walk_composition_some hnode hvisit]
          refine hflatten.bind fun merged _ => ?_
          split
          · exact Refines.refl _
          · exact (ih registry (.object merged) (some (Text.enumChildName parent))).map _

/-- More fuel keeps what a walk leads to. -/
theorem walk_refines (h : fuel ≤ more) (registry : Registry) (node : SchemaNode)
    (place : Option String) : Refines (walk document fuel registry node place)
      (walk document more registry node place) :=
  Refines.of_succ (fun fuel => walk_refines_succ fuel registry node place) fuel more h

theorem register_refines (h : fuel ≤ more) (registry : Registry) (reference : String)
    (asStruct : Bool) : Refines (registry.register document fuel reference asStruct)
      (registry.register document more reference asStruct) :=
  register_refines_of_walk (walk_refines h) h registry reference asStruct

/-- More fuel keeps what a call answers and leads to. -/
theorem add_refines (h : fuel ≤ more) (registry : Registry) (name : String) (root : SchemaNode)
    (asStruct : Bool) : Refines (registry.add document fuel name root asStruct)
      (registry.add document more name root asStruct) := by
  unfold add
  dsimp only
  split
  · next reference _ =>
    exact (register_refines h registry reference false).bind fun _ _ => Refines.refl _
  · split
    · exact Refines.refl _
    · exact (SchemaNode.flattenAllOf?_refines h root.cleanup).bind fun stored _ =>
        (walk_refines h registry stored (some name)).bind fun _ _ => Refines.refl _

end

/-! ## Going inside -/

/-- Registering a reference ends when walking what is stored for its target does, once the reference
    is marked. -/
theorem exists_register_of_walk {registry : Registry} {reference : String} {asStruct : Bool}
    (hwalk : ∀ target stored, reference ∉ registry.visited →
      Reference.resolveNode document reference = some target → target.Stores document stored →
        ∃ fuel after, walk document fuel ((registry.visit reference).keepTarget reference stored)
          stored (some (Reference.name reference)) = some after) :
    ∃ fuel after, registry.register document fuel reference asStruct = some after := by
  by_cases hskip : (!Reference.isInternal reference || registry.has (Reference.name reference)
      || registry.visited.contains reference) = true
  · exact ⟨0, registry, if_pos hskip⟩
  have hfresh : reference ∉ registry.visited := by
    intro hmem
    exact hskip (by simp [hmem])
  cases htarget : Reference.resolveNode document reference with
  | none =>
    refine ⟨0, registry.visit reference, ?_⟩
    unfold register registerWith
    dsimp only
    rw [if_neg hskip, htarget]
  | some target =>
    obtain ⟨stored, hstores⟩ := SchemaNode.exists_stores document target
    obtain ⟨more, walked, hwalked⟩ := hwalk target stored hfresh htarget hstores
    obtain ⟨fuel, hstored⟩ := hstores
    -- The target is flattened and walked with one amount of fuel.
    have hstored' := SchemaNode.flattenAllOf?_refines (Nat.le_max_left fuel more) _ stored hstored
    have hwalked' := walk_refines (Nat.le_max_right fuel more) _ _ _ walked hwalked
    refine ⟨max fuel more, walked.insertNew (Reference.name reference)
      ⟨stored, !asStruct, stored.isEnumLike⟩, ?_⟩
    unfold register registerWith
    dsimp only
    rw [if_neg hskip, htarget]
    exact Option.bind_eq_some_iff.mpr
      ⟨stored, hstored', Option.bind_eq_some_iff.mpr ⟨walked, hwalked', rfl⟩⟩

/-- A walk of a composition ends when walking what it is flattened to does. -/
theorem exists_walk_of_composition {registry : Registry} {node : SchemaNode}
    {place : Option String} {schema merged : Schema} (hread : node.toSchema? = some schema)
    (hvisit : schema.visit place = .composition)
    (hflattens : Schema.Flattens document [] schema merged)
    (hwalk : ∃ fuel after, walk document fuel registry (.object merged)
      (place.map Text.enumChildName) = some after) :
    ∃ fuel after, walk document fuel registry node place = some after := by
  obtain ⟨more, hmerged⟩ := hflattens
  obtain ⟨fuel, after, hafter⟩ := hwalk
  have hmerged : schema.resolveAllOf? document (max fuel more) = some merged :=
    Schema.flattenWithin_refines (Nat.le_max_right fuel more) [] schema merged hmerged
  have hafter := walk_refines (Nat.le_max_left fuel more) _ _ _ after hafter
  cases place with
  | none =>
    refine ⟨max fuel more + 1, after, ?_⟩
    rw [walk_composition_none hread hvisit]
    exact Option.bind_eq_some_iff.mpr ⟨merged, hmerged, hafter⟩
  | some parent =>
    rw [Option.map_some] at hafter
    by_cases htaken : registry.has (Text.enumChildName parent) = true
    · refine ⟨max fuel more + 1, registry, ?_⟩
      rw [walk_composition_some hread hvisit]
      exact Option.bind_eq_some_iff.mpr ⟨merged, hmerged, if_pos htaken⟩
    · refine ⟨max fuel more + 1, after.insertNew (Text.enumChildName parent)
        ⟨.object merged, true, merged.isEnumLike⟩, ?_⟩
      rw [walk_composition_some hread hvisit]
      refine Option.bind_eq_some_iff.mpr ⟨merged, hmerged, ?_⟩
      rw [if_neg htaken, hafter]
      rfl

section

variable {P : Registry → Prop} {Q : String → Prop}

/-- A walk of a node that is no composition ends when those of the nodes inside do, from every
    registry that the walk may come to, and registering the reference that the node is. -/
theorem exists_walk_of_inside
    (hextends : ∀ first second, Extends first second → P first → P second) {registry : Registry}
    {node : SchemaNode} {schema : Schema} {place : Option String} (hstart : P registry)
    (hread : node.toSchema? = some schema) (hflat : schema.visit place ≠ .composition)
    (hregister : ∀ reference, schema.Mentions reference →
      ∃ fuel after, registry.register document fuel reference true = some after)
    (hinside : ∀ inner, schema.Holds inner → ∀ registry place, P registry →
      ∃ fuel after, walk document fuel registry inner place = some after) :
    ∃ fuel after, walk document fuel registry node place = some after := by
  cases hvisit : schema.visit place with
  | positions positions =>
    have hstep : ∀ position ∈ positions, ∀ registry, P registry → ∃ fuel after,
        walk document fuel registry position.1 position.2 = some after ∧ P after := by
      intro position hmem registry hP
      obtain ⟨fuel, after, hafter⟩ :=
        hinside position.1 (Schema.holds_of_visit hvisit hmem) registry position.2 hP
      exact ⟨fuel, after, hafter, hextends _ _ (walk_extends hafter) hP⟩
    have hmore : ∀ (fuel more : Nat) (registry : Registry)
        (position : SchemaNode × Option String), fuel ≤ more →
          Refines (walk document fuel registry position.1 position.2)
            (walk document more registry position.1 position.2) :=
      fun _ _ registry position hle => walk_refines hle registry position.1 position.2
    obtain ⟨fuel, after, hafter, -⟩ := exists_fuel_foldlM hmore hstep hstart
    exact ⟨fuel + 1, after, (walk_positions hread hvisit).trans hafter⟩
  | enumeration => exact ⟨1, _, walk_enumeration hread hvisit⟩
  | reference reference =>
    obtain ⟨fuel, after, hafter⟩ := hregister reference (.own (Schema.ref_of_visit hvisit))
    exact ⟨fuel + 1, after, (walk_reference hread hvisit).trans hafter⟩
  | composition => exact absurd hvisit hflat

/-- Where nothing is composed, a walk ends when registering the references that are mentioned does,
    from every registry that the walk may come to. -/
theorem exists_walk_of_register
    (hextends : ∀ first second, Extends first second → P first → P second)
    (hregister : ∀ registry reference, P registry → Q reference →
      ∃ fuel after, registry.register document fuel reference true = some after)
    (bound : Nat) : ∀ registry node schema place, P registry → node.toSchema? = some schema →
      schema.LoneAllOf → schema.Below bound →
      (∀ reference, schema.Mentions reference → Q reference) →
        ∃ fuel after, walk document fuel registry node place = some after := by
  induction bound using Nat.strongRecOn with
  | ind bound ih =>
    -- The nodes inside are smaller; only a composition does not go on with them at once.
    have hplain : ∀ registry node schema place, P registry → node.toSchema? = some schema →
        schema.LoneAllOf → schema.Below bound →
        (∀ reference, schema.Mentions reference → Q reference) →
        schema.visit place ≠ .composition →
          ∃ fuel after, walk document fuel registry node place = some after := by
      intro registry node schema place hP hread hlone hbelow hmentions hflat
      refine exists_walk_of_inside hextends hP hread hflat
        (fun reference h => hregister registry reference hP (hmentions reference h)) ?_
      intro inner hholds registry place hP
      cases hinner : inner.toSchema? with
      | none => exact ⟨1, registry, walk_of_none hinner⟩
      | some read =>
        exact ih _ (hbelow _ hholds) registry inner read place hP hinner
          (SchemaNode.loneAllOf_of_holds hlone hholds read hinner)
          (fun node hnode => SchemaNode.sizeOf_lt_of_holds hinner hnode)
          (fun reference h => hmentions reference (h.of_held hholds hinner))
    intro registry node schema place hP hread hlone hbelow hmentions
    by_cases hvisit : schema.visit place = .composition
    · -- What the composition is flattened to is none, and has nothing more inside.
      have hnormal := SchemaNode.normal_of_toSchema? hread
      obtain ⟨merged, hmerged⟩ := Schema.exists_flattens document [] schema
      obtain ⟨hclean, hallOf⟩ := hmerged.clean hnormal
      refine exists_walk_of_composition hread hvisit hmerged ?_
      refine hplain registry (.object merged) merged _ hP (SchemaNode.toSchema?_of_normal hclean)
        (SchemaNode.loneAllOf_of_flattens hlone hnormal hmerged)
        (fun inner h => hbelow inner (hlone.holds_of_flattens hnormal hmerged h))
        (fun reference h => hmentions reference (hlone.mentions_of_flattens hnormal hmerged h)) ?_
      intro hagain
      have hsome := allOf_isSome_of_visit hagain
      rw [hallOf] at hsome
      cases hsome
    · exact hplain registry node schema place hP hread hlone hbelow hmentions hvisit

end

/-! ## Following references -/

/-- The references of the document that are not marked yet. -/
def unmarked (document : Json) (registry : Registry) : Finset String :=
  document.references.toFinset \ registry.visited.toFinset

theorem card_unmarked_le {first second : Registry} (h : Extends first second) :
    (unmarked document second).card ≤ (unmarked document first).card := by
  refine Finset.card_le_card (Finset.sdiff_subset_sdiff (Finset.Subset.refl _) ?_)
  intro reference hmem
  rw [List.mem_toFinset] at hmem ⊢
  exact h.visited.subset hmem

/-- Marking a reference of the document leaves fewer that are not. -/
theorem card_unmarked_lt {registry : Registry} {reference : String}
    (hmentions : document.Mentions reference) (hfresh : reference ∉ registry.visited)
    (stored : SchemaNode) :
    (unmarked document ((registry.visit reference).keepTarget reference stored)).card <
      (unmarked document registry).card := by
  have hmem : reference ∈ document.references.toFinset :=
    List.mem_toFinset.mpr (Json.mem_references.mpr hmentions)
  have hvisited : ((registry.visit reference).keepTarget reference stored).visited.toFinset =
      (reference :: registry.visited).toFinset := by
    rw [visited_keepTarget, visit, List.toFinset_append, List.toFinset_cons, List.toFinset_cons,
      List.toFinset_nil, Finset.insert_eq, Finset.insert_eq, Finset.union_empty, Finset.union_comm]
  unfold unmarked
  rw [hvisited]
  exact Schema.card_sdiff_cons_lt hmem (by simpa using hfresh)

section

variable (hdocument : document.LoneAllOf)
include hdocument

/-- In a document that composes nothing, a walk of a node of the document ends. -/
theorem exists_walk_of_local (left : Nat) : ∀ registry : Registry,
    (unmarked document registry).card ≤ left → ∀ node place, node.Local document →
      node.LoneAllOf → ∃ fuel after, walk document fuel registry node place = some after := by
  induction left using Nat.strongRecOn with
  | ind left ih =>
    intro registry hleft node place hlocal hlone
    cases hread : node.toSchema? with
    | none => exact ⟨1, registry, walk_of_none hread⟩
    | some schema =>
      refine exists_walk_of_register (P := fun registry => (unmarked document registry).card ≤ left)
        (Q := document.Mentions) (fun _ _ hle h => (card_unmarked_le hle).trans h) ?_ _ registry node
        schema place hleft hread (hlone schema hread)
        (fun inner h => SchemaNode.sizeOf_lt_of_holds hread h) (hlocal.toSchema? hread)
      intro registry reference hleft hmentions
      refine exists_register_of_walk fun target stored hfresh htarget hstores => ?_
      obtain ⟨fuel, hstored⟩ := id hstores
      -- One more reference of the document is marked while the target is walked.
      have hlt := card_unmarked_lt hmentions hfresh stored
      exact ih _ (hlt.trans_le hleft) _ (Nat.le_refl _) stored _
        ((Schema.local_of_resolveNode htarget).cleanup.flattenAllOf? hstored)
        (hstores.loneAllOf (Reference.loneAllOf_of_resolveNode hdocument htarget))

/-- In a document that composes nothing, registering a reference ends, whatever the reference. -/
theorem exists_register (registry : Registry) (reference : String) (asStruct : Bool) :
    ∃ fuel after, registry.register document fuel reference asStruct = some after := by
  refine exists_register_of_walk fun target stored _ htarget hstores => ?_
  obtain ⟨fuel, hstored⟩ := id hstores
  exact exists_walk_of_local hdocument _ _ (Nat.le_refl _) stored _
    ((Schema.local_of_resolveNode htarget).cleanup.flattenAllOf? hstored)
    (hstores.loneAllOf (Reference.loneAllOf_of_resolveNode hdocument htarget))

/-- A walk of a node that composes nothing ends, also when the node is not from the document. -/
theorem exists_walk {node : SchemaNode} (hlone : node.LoneAllOf) (registry : Registry)
    (place : Option String) :
    ∃ fuel after, walk document fuel registry node place = some after := by
  cases hread : node.toSchema? with
  | none => exact ⟨1, registry, walk_of_none hread⟩
  | some schema =>
    exact exists_walk_of_register (P := fun _ => True) (Q := fun _ => True) (fun _ _ _ h => h)
      (fun registry reference _ _ => exists_register hdocument registry reference true) _ registry
      node schema place trivial hread (hlone schema hread)
      (fun inner h => SchemaNode.sizeOf_lt_of_holds hread h) fun _ _ => trivial

/-- A call with a schema that composes nothing ends, from whatever registry. -/
theorem exists_add {root : SchemaNode} (hlone : root.LoneAllOf) (registry : Registry)
    (name : String) (asStruct : Bool) :
    ∃ fuel answer after, registry.add document fuel name root asStruct = some (answer, after) := by
  unfold add
  dsimp only
  cases root.cleanup.object?.bind (·.ref) with
  | some reference =>
    obtain ⟨fuel, after, hafter⟩ := exists_register hdocument registry reference false
    exact ⟨fuel, _, after, Option.bind_eq_some_iff.mpr ⟨after, hafter, rfl⟩⟩
  | none =>
    dsimp only
    by_cases htaken : registry.has name = true
    · exact ⟨0, name, registry, if_pos htaken⟩
    obtain ⟨stored, hstores⟩ := SchemaNode.exists_stores document root
    obtain ⟨more, walked, hwalked⟩ :=
      exists_walk hdocument (hstores.loneAllOf hlone) registry (some name)
    obtain ⟨fuel, hstored⟩ := hstores
    refine ⟨max fuel more, name, walked.insertNew name ⟨stored, !asStruct, stored.isEnumLike⟩, ?_⟩
    rw [if_neg htaken]
    exact Option.bind_eq_some_iff.mpr
      ⟨stored, SchemaNode.flattenAllOf?_refines (Nat.le_max_left ..) _ stored hstored,
        Option.bind_eq_some_iff.mpr
          ⟨walked, walk_refines (Nat.le_max_right ..) _ _ _ walked hwalked, rfl⟩⟩

end

end Registry
end TypedClient
