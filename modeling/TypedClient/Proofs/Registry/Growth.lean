/-
  TypedClient.Proofs.Registry.Growth

  Registering only adds to a registry: entries and references that are there stay, and so does the
  target of a reference that was walked.  So what a walk has registered is there in every later
  registry.
-/
import TypedClient.Proofs.Fuel
import TypedClient.Proofs.Keyed
import TypedClient.Proofs.Schema.Flatten
import TypedClient.Registry.Walk

namespace TypedClient
namespace Registry

variable {document : Json}

/-! ## Extension -/

/-- The second registry has all that the first one has, and what it adds comes later. -/
structure Extends (first second : Registry) : Prop where
  entries : first.entries <+: second.entries
  visited : first.visited <+: second.visited
  /-- The target of a walked reference does not change. -/
  target : ∀ reference ∈ first.visited, second.target? reference = first.target? reference

theorem Extends.refl (registry : Registry) : Extends registry registry :=
  ⟨List.prefix_rfl, List.prefix_rfl, fun _ _ => rfl⟩

theorem Extends.trans {first second third : Registry} (h : Extends first second)
    (h' : Extends second third) : Extends first third where
  entries := h.entries.trans h'.entries
  visited := h.visited.trans h'.visited
  target reference hvisited :=
    (h'.target reference (h.visited.subset hvisited)).trans (h.target reference hvisited)

theorem Extends.get? {first second : Registry} (h : Extends first second) {name : String}
    {entry : Entry} (hentry : first.get? name = some entry) : second.get? name = some entry :=
  Keyed.get?_of_prefix h.entries hentry

theorem has_eq_isSome (registry : Registry) (name : String) :
    registry.has name = (registry.get? name).isSome :=
  Keyed.has_eq_isSome name registry.entries

theorem has_iff_exists {registry : Registry} {name : String} :
    registry.has name = true ↔ ∃ entry, registry.get? name = some entry := by
  rw [has_eq_isSome, Option.isSome_iff_exists]

theorem get?_eq_none_iff {registry : Registry} {name : String} :
    registry.get? name = none ↔ registry.has name = false := by
  rw [has_eq_isSome, Option.isSome_eq_false_iff, Option.isNone_iff_eq_none]

theorem Extends.has {first second : Registry} (h : Extends first second) {name : String}
    (hname : first.has name = true) : second.has name = true := by
  obtain ⟨entry, hentry⟩ := has_iff_exists.mp hname
  exact has_iff_exists.mpr ⟨entry, h.get? hentry⟩

theorem extends_insertNew (registry : Registry) (name : String) (entry : Entry) :
    Extends registry (registry.insertNew name entry) :=
  ⟨Keyed.prefix_insertNew .., List.prefix_rfl, fun _ _ => rfl⟩

theorem get?_insertNew (registry : Registry) (name other : String) (entry : Entry) :
    (registry.insertNew name entry).get? other =
      (registry.get? other).or (if other = name then some entry else none) :=
  Keyed.get?_insertNew name entry registry.entries other

/-- Nothing is inserted under a name that is taken. -/
theorem insertNew_of_has {registry : Registry} {name : String} {entry : Entry}
    (h : registry.has name = true) : registry.insertNew name entry = registry := by
  rw [has] at h
  rw [insertNew, Keyed.insertNew, if_pos h]

/-- Under a free name an entry comes last. -/
theorem entries_insertNew_of_free {registry : Registry} {name : String} {entry : Entry}
    (h : registry.has name = false) :
    (registry.insertNew name entry).entries = registry.entries ++ [(name, entry)] := by
  rw [has] at h
  rw [insertNew, Keyed.insertNew, if_neg (by simp [h])]

/-- After an insertion the name has the entry that it had before, or else the inserted one. -/
theorem get?_insertNew_self (registry : Registry) (name : String) (stored : Entry) :
    ∃ entry, (registry.insertNew name stored).get? name = some entry ∧
      (registry.get? name = some entry ∨ entry = stored) := by
  rw [get?_insertNew, if_pos rfl]
  cases htaken : registry.get? name with
  | some entry => exact ⟨entry, rfl, Or.inl rfl⟩
  | none => exact ⟨stored, rfl, Or.inr rfl⟩

/-- Under a free name an insertion puts its entry. -/
theorem get?_insertNew_of_free {registry : Registry} {name : String} (entry : Entry)
    (h : registry.has name = false) : (registry.insertNew name entry).get? name = some entry := by
  rw [get?_insertNew, get?_eq_none_iff.mpr h, Option.none_or, if_pos rfl]

/-- After an insertion the name is taken. -/
theorem has_insertNew (registry : Registry) (name : String) (entry : Entry) :
    (registry.insertNew name entry).has name = true := by
  obtain ⟨last, hlast, -⟩ := get?_insertNew_self registry name entry
  exact has_iff_exists.mpr ⟨last, hlast⟩

theorem entries_keepTarget (registry : Registry) (reference : String) (target : SchemaNode) :
    (registry.keepTarget reference target).entries = registry.entries := by
  cases target <;> rfl

theorem visited_keepTarget (registry : Registry) (reference : String) (target : SchemaNode) :
    (registry.keepTarget reference target).visited = registry.visited := by
  cases target <;> rfl

/-- Keeping a target changes the target of its own reference only. -/
theorem target?_keepTarget_of_ne (registry : Registry) {reference other : String}
    (target : SchemaNode) (h : other ≠ reference) :
    (registry.keepTarget reference target).target? other = registry.target? other := by
  cases target with
  | bool admits => rfl
  | object schema => exact Keyed.get?_insert_of_ne _ schema h

theorem target?_keepTarget_self (registry : Registry) (reference : String) (schema : Schema) :
    (registry.keepTarget reference (.object schema)).target? reference = some schema :=
  Keyed.get?_insert_self ..

/-- A reference that was not walked before may be marked, and its target kept. -/
theorem extends_keepTarget {registry : Registry} {reference : String}
    (h : reference ∉ registry.visited) (target : SchemaNode) :
    Extends registry ((registry.visit reference).keepTarget reference target) where
  entries := by
    rw [entries_keepTarget]
    exact List.prefix_rfl
  visited := by
    rw [visited_keepTarget]
    exact List.prefix_append ..
  target other hother :=
    target?_keepTarget_of_ne _ target fun heq => h (heq ▸ hother)

theorem extends_visit (registry : Registry) (reference : String) :
    Extends registry (registry.visit reference) :=
  ⟨List.prefix_rfl, List.prefix_append .., fun _ _ => rfl⟩

/-! ## One step of a walk -/

/-- A walk flattens a schema only when the schema has a composition. -/
theorem allOf_isSome_of_visit {schema : Schema} {place : Option String}
    (h : schema.visit place = .composition) : schema.allOf.isSome = true := by
  unfold Schema.visit at h
  split at h
  · cases h
  · split at h
    · cases h
    · split at h
      · cases h
      · split at h
        · cases h
        · split at h
          · next hallOf => exact hallOf
          · split at h <;> cases h

section Step

variable {fuel : Nat} {registry : Registry} {node : SchemaNode} {place : Option String}
  {schema : Schema}

theorem walk_of_none (hnode : node.toSchema? = none) :
    walk document (fuel + 1) registry node place = some registry := by
  rw [walk, hnode]

theorem walk_positions {positions : List (SchemaNode × Option String)}
    (hnode : node.toSchema? = some schema) (hvisit : schema.visit place = .positions positions) :
    walk document (fuel + 1) registry node place = positions.foldlM (fun registry position =>
      walk document fuel registry position.1 position.2) registry := by
  rw [walk, hnode]
  dsimp only
  rw [hvisit]

theorem walk_enumeration (hnode : node.toSchema? = some schema)
    (hvisit : schema.visit place = .enumeration) :
    walk document (fuel + 1) registry node place =
      some (place.elim registry fun name =>
        registry.insertNew name ⟨.object schema, false, true⟩) := by
  rw [walk, hnode]
  dsimp only
  rw [hvisit]
  cases place <;> rfl

theorem walk_reference {reference : String} (hnode : node.toSchema? = some schema)
    (hvisit : schema.visit place = .reference reference) :
    walk document (fuel + 1) registry node place =
      registry.register document fuel reference true := by
  rw [walk, hnode]
  dsimp only
  rw [hvisit]
  rfl

theorem walk_composition_none (hnode : node.toSchema? = some schema)
    (hvisit : schema.visit none = .composition) :
    walk document (fuel + 1) registry node none = (schema.resolveAllOf? document fuel).bind
      fun merged => walk document fuel registry (.object merged) none := by
  rw [walk, hnode]
  dsimp only
  rw [hvisit]
  rfl

theorem walk_composition_some {parent : String} (hnode : node.toSchema? = some schema)
    (hvisit : schema.visit (some parent) = .composition) :
    walk document (fuel + 1) registry node (some parent) =
      (schema.resolveAllOf? document fuel).bind fun merged =>
        if registry.has (Text.enumChildName parent) then some registry
        else (walk document fuel registry (.object merged) (some (Text.enumChildName parent))).map
          (·.insertNew (Text.enumChildName parent) ⟨.object merged, true, merged.isEnumLike⟩) := by
  rw [walk, hnode]
  dsimp only
  rw [hvisit]
  dsimp only
  congr 1
  funext merged
  split
  · rfl
  · rw [Option.map_eq_bind]
    rfl

end Step

/-- Registering a reference changes nothing when it leads out of the document, was walked before or
    has its name taken. Otherwise it is marked; and when it leads somewhere, its target is
    flattened, kept, walked and stored. -/
theorem register_cases {fuel : Nat} {registry after : Registry} {reference : String}
    {asStruct : Bool} (h : registry.register document fuel reference asStruct = some after) :
    (after = registry ∧ (Reference.isInternal reference = false ∨
      registry.has (Reference.name reference) = true ∨ reference ∈ registry.visited)) ∨
    (Reference.isInternal reference = true ∧ registry.has (Reference.name reference) = false ∧
      reference ∉ registry.visited ∧
      ((Reference.resolveNode document reference = none ∧ after = registry.visit reference) ∨
      ∃ target stored walked, Reference.resolveNode document reference = some target ∧
        target.cleanup.flattenAllOf? document fuel = some stored ∧
        walk document fuel ((registry.visit reference).keepTarget reference stored) stored
          (some (Reference.name reference)) = some walked ∧
        after = walked.insertNew (Reference.name reference)
          ⟨stored, !asStruct, stored.isEnumLike⟩)) := by
  unfold register registerWith at h
  dsimp only at h
  split at h
  · next hskip =>
    refine Or.inl ⟨(Option.some.inj h).symm, ?_⟩
    simpa [or_assoc] using hskip
  · next hskip =>
    -- Nothing is skipped: the reference is new, and so is its name.
    have hskip : (Reference.isInternal reference = true ∧
        registry.has (Reference.name reference) = false) ∧ reference ∉ registry.visited := by
      simpa using hskip
    obtain ⟨⟨hinternal, hname⟩, hvisited⟩ := hskip
    refine Or.inr ⟨hinternal, hname, hvisited, ?_⟩
    split at h
    · next hnone => exact Or.inl ⟨hnone, (Option.some.inj h).symm⟩
    · next target htarget =>
      obtain ⟨stored, hstored, h⟩ := Option.bind_eq_some_iff.mp h
      obtain ⟨walked, hwalked, h⟩ := Option.bind_eq_some_iff.mp h
      exact Or.inr ⟨target, stored, walked, htarget, hstored, hwalked, (Option.some.inj h).symm⟩

/-! ## A walk only adds -/

theorem register_extends_of_walk {fuel : Nat}
    (hwalk : ∀ registry node place after, walk document fuel registry node place = some after →
      Extends registry after) {registry after : Registry} {reference : String} {asStruct : Bool}
    (h : registry.register document fuel reference asStruct = some after) :
    Extends registry after := by
  rcases register_cases h with ⟨rfl, -⟩ | ⟨-, -, hvisited, ⟨-, rfl⟩ |
    ⟨target, stored, walked, -, -, hwalked, rfl⟩⟩
  · exact .refl after
  · exact extends_visit registry reference
  · exact ((extends_keepTarget hvisited stored).trans (hwalk _ _ _ _ hwalked)).trans
      (extends_insertNew ..)

/-- Walking a node only adds to the registry. -/
theorem walk_extends {fuel : Nat} {registry after : Registry} {node : SchemaNode}
    {place : Option String} (h : walk document fuel registry node place = some after) :
    Extends registry after := by
  induction fuel generalizing registry after node place with
  | zero => cases h
  | succ fuel ih =>
    cases hnode : node.toSchema? with
    | none =>
      rw [walk_of_none hnode] at h
      exact Option.some.inj h ▸ .refl registry
    | some schema =>
      cases hvisit : schema.visit place with
      | positions positions =>
        rw [walk_positions hnode hvisit] at h
        -- Every position adds to what the ones before it have added.
        exact foldlM_preserves (P := Extends registry)
          (fun _ _ _ hstep hP => hP.trans (ih hstep)) h (.refl registry)
      | enumeration =>
        rw [walk_enumeration hnode hvisit] at h
        obtain rfl := Option.some.inj h
        cases place with
        | none => exact .refl registry
        | some name => exact extends_insertNew ..
      | reference reference =>
        rw [walk_reference hnode hvisit] at h
        exact register_extends_of_walk (fun _ _ _ _ hwalk => ih hwalk) h
      | composition =>
        cases place with
        | none =>
          rw [walk_composition_none hnode hvisit] at h
          obtain ⟨merged, -, h⟩ := Option.bind_eq_some_iff.mp h
          exact ih h
        | some parent =>
          rw [walk_composition_some hnode hvisit] at h
          obtain ⟨merged, -, h⟩ := Option.bind_eq_some_iff.mp h
          split at h
          · exact Option.some.inj h ▸ .refl registry
          · obtain ⟨walked, hwalked, rfl⟩ := Option.map_eq_some_iff.mp h
            exact (ih hwalked).trans (extends_insertNew ..)

/-- Walking positions one after the other only adds to the registry. -/
theorem walkAll_extends {fuel : Nat} {registry after : Registry}
    {positions : List (SchemaNode × Option String)}
    (h : positions.foldlM (fun registry position =>
      walk document fuel registry position.1 position.2) registry = some after) :
    Extends registry after :=
  foldlM_preserves (P := Extends registry) (fun _ _ _ hstep hP => hP.trans (walk_extends hstep)) h
    (.refl registry)

/-- Registering a reference only adds to the registry. -/
theorem register_extends {fuel : Nat} {registry after : Registry} {reference : String}
    {asStruct : Bool} (h : registry.register document fuel reference asStruct = some after) :
    Extends registry after :=
  register_extends_of_walk (fun _ _ _ _ hwalk => walk_extends hwalk) h

end Registry
end TypedClient
