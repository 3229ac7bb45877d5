/-
  TypedClient.Proofs.Fragment.Coverage

  Which of the positions that rendering reaches were walked when the schemas were registered.

  Both recursions read the same keywords, in another sequence.  They part at three steps only: the
  values of a map that is one of several types, a property that is shown as the other member of a
  union with `null`, and a composition that was walked under a name and is rendered without one.
  Everywhere else a rendered position was walked, so that the references it prints are registered.
-/
import Mathlib.Logic.Relation
import TypedClient.Generate
import TypedClient.Proofs.Fragment.Outline
import TypedClient.Proofs.Registry.Occurrence

namespace TypedClient

open Relation

variable {document : Json} {registry : Registry}

/-! ## Rendering, step by step -/

/-- A node at a place of the generated code. -/
structure Point where
  node : SchemaNode
  name : Option String
  position : Position

/-- Rendering goes on from one point to another: to a position that the fragment is put together
    from, or to what a composition is flattened to. -/
inductive RenderStep (registry : Registry) (document : Json) : Point → Point → Prop where
  | part {schema : Schema} {name : Option String} {position : Position} {sure : Bool}
      {parts : List Part} {part : Part}
      (outline : schema.cleanup.outline registry document name position = .parts sure parts)
      (mem : part ∈ parts) :
      RenderStep registry document ⟨.object schema, name, position⟩ ⟨part.1, part.2, .nested⟩
  | composition {schema merged : Schema} {name child : Option String} {position : Position}
      (outline : schema.cleanup.outline registry document name position = .composition child)
      (flattens : Schema.Flattens document [] schema.cleanup merged) :
      RenderStep registry document ⟨.object schema, name, position⟩
        ⟨.object merged, child, position⟩

/-- The point that the declaration of an entry is rendered from. -/
def Point.ofEntry (entry : String × Entry) : Point where
  node := entry.2.schema
  name := some entry.1
  position :=
    if Registry.isObject entry.2 && entry.2.isClass then .topLevelClass else .topLevel

/-- Rendering the entries of a registry reaches the point. -/
def Rendered (registry : Registry) (document : Json) (point : Point) : Prop :=
  ∃ entry ∈ registry.entries,
    ReflTransGen (RenderStep registry document) (Point.ofEntry entry) point

/-- A reference is printed at the point, by the name of its declaration if there is one. -/
def Prints (registry : Registry) (document : Json) (point : Point) (reference : String) : Prop :=
  ∃ schema, point.node = .object schema ∧
    schema.cleanup.outline registry document point.name point.position = .reference reference

/-- A reference that leads somewhere is left out at the point, for want of a declaration. -/
def Omits (registry : Registry) (document : Json) (point : Point) : Prop :=
  ∃ reference, Prints registry document point reference ∧
    (Reference.resolve document reference).isSome = true ∧
    registry.has (Reference.name reference) = false

/-! ## Steps that a walk does not take -/

/-- Nothing comes before the members of a union, or the items, when the schema is walked. -/
structure Schema.Bare (schema : Schema) : Prop where
  properties : schema.properties = none
  type : schema.typeName? ≠ some "object"
  enumLike : schema.isEnumLike = false
  ref : schema.ref = none
  allOf : schema.allOf = none

/-- Steps of rendering that a walk over the same schema need not have taken. -/
inductive Overlooked (registry : Registry) (document : Json) (requests : List Registry.Request) :
    Point → Point → Prop where
  /-- The values of a map, when its type is one of several. -/
  | mapValues {schema : Schema} {name : Option String} {position : Position}
      {types : List String} {values : SchemaNode}
      (type : schema.cleanup.type = some (.several types)) (mem : "object" ∈ types)
      (additional : schema.cleanup.additionalProperties = some values) :
      Overlooked registry document requests ⟨.object schema, name, position⟩ ⟨values, none, .nested⟩
  /-- A property that is shown as the other member of a union with `null`, when a keyword beside
      the union comes first, or the union is behind a reference whose target is not the kept one. -/
  | otherThanNull {schema union : Schema} {name otherName : Option String} {position : Position}
      {properties : Keyed SchemaNode} {property : String × SchemaNode} {other : SchemaNode}
      (declares : schema.cleanup.properties = some properties) (mem : property ∈ properties)
      (annotated : Fragment.annotated? registry document property.2.toSchema? = some union)
      (nullable : union.withoutNull? = some other)
      (apart : union.Bare → ∃ own reference, property.2.toSchema? = some own ∧
        own.ref = some reference ∧ registry.target? reference ≠ some union) :
      Overlooked registry document requests ⟨.object schema, name, position⟩
        ⟨other, otherName, .nested⟩
  /-- A composition without a name that was walked under one, when the entry under the name that
      it derives is for another schema. -/
  | composition {schema merged : Schema} {position : Position} {parent : String}
      (reached : Registry.Reached document requests (.object schema) (some parent))
      (flattens : Schema.Flattens document [] schema.cleanup merged)
      (taken : ∀ entry, registry.get? (Text.enumChildName parent) = some entry →
        entry.schema ≠ .object merged) :
      Overlooked registry document requests ⟨.object schema, none, position⟩
        ⟨.object merged, none, position⟩

namespace Schema

variable {schema : Schema}

/-! ## What is walked, and what is rendered -/

theorem isEnumLike_eq_false (henum : schema.enum = none) (hconst : schema.const = none) :
    schema.isEnumLike = false := by
  rw [isEnumLike, henum, hconst]
  rfl

theorem visit_of_properties {properties : Keyed SchemaNode} {place : Option String}
    (h : schema.properties = some properties) :
    schema.visit place = .positions (properties.map fun property =>
      (property.2, place.map (· ++ Text.identifier property.1))) := by
  unfold visit
  rw [h]

theorem visit_of_object {place : Option String} (hproperties : schema.properties = none)
    (htype : schema.typeName? = some "object") :
    schema.visit place = .positions (schema.additionalProperties.toList.map (·, none)) := by
  unfold visit
  rw [hproperties]
  dsimp only
  rw [htype]
  rfl

theorem Bare.visit_union (h : schema.Bare) {place : Option String} {members : List SchemaNode}
    (hmembers : schema.unionMembers? = some members) :
    schema.visit place = .positions (members.map (·, place.map Text.enumChildName)) := by
  unfold visit
  rw [h.properties]
  dsimp only
  rw [if_neg (by simpa using h.type), h.enumLike, if_neg Bool.false_ne_true, h.ref]
  dsimp only
  rw [h.allOf, Option.isSome_none, if_neg Bool.false_ne_true, hmembers]

theorem Bare.visit_items (h : schema.Bare) {place : Option String}
    (hmembers : schema.unionMembers? = none) :
    schema.visit place = .positions (match schema.items with
      | some (.single item) => [(item, none)]
      | some (.tuple items) => items.map (·, none)
      | none => []) := by
  unfold visit
  rw [h.properties]
  dsimp only
  rw [if_neg (by simpa using h.type), h.enumLike, if_neg Bool.false_ne_true, h.ref]
  dsimp only
  rw [h.allOf, Option.isSome_none, if_neg Bool.false_ne_true]
  generalize schema.unionMembers? = members at hmembers ⊢
  subst hmembers
  rfl

/-- The other member of a union with `null` is one of its members. -/
theorem mem_of_withoutNull? {other : SchemaNode} (h : schema.withoutNull? = some other) :
    ∃ members, schema.unionMembers? = some members ∧ other ∈ members := by
  unfold withoutNull? at h
  dsimp only at h
  split at h
  · next first second hmembers =>
    refine ⟨[first, second], hmembers, ?_⟩
    split at h
    · cases h
      simp
    · cases h
      simp
    · cases h
  · cases h

theorem mem_of_mem_literalBranches {members : List SchemaNode} {member : SchemaNode}
    (h : member ∈ literalBranches members) : member ∈ members := by
  unfold literalBranches at h
  dsimp only at h
  split at h
  · exact List.mem_of_mem_filter h
  · exact h

/-- The position of a map is the one of its values. -/
theorem mem_recordParts {part : Part} (h : part ∈ schema.recordParts.2) :
    part.2 = none ∧ schema.additionalProperties = some part.1 := by
  unfold recordParts at h
  split at h
  · next values hvalues =>
    obtain rfl := List.mem_singleton.mp h
    exact ⟨rfl, hvalues⟩
  · cases h

/-- A position of an array is one of its items. -/
theorem mem_arrayParts {part : Part} (h : part ∈ schema.arrayParts.2) :
    part.2 = none ∧ part ∈ (match schema.items with
      | some (.single item) => [(item, none)]
      | some (.tuple items) => items.map (·, none)
      | none => [] : List Part) := by
  unfold arrayParts at h
  split at h
  · cases h
  · cases h
  · next item hitem hitems =>
    obtain rfl := List.mem_singleton.mp h
    rw [hitems]
    exact ⟨rfl, List.mem_singleton.mpr rfl⟩
  · next items hitems =>
    obtain ⟨item, hitem, rfl⟩ := List.mem_map.mp h
    rw [hitems]
    exact ⟨rfl, List.mem_map.mpr ⟨item, mem_of_mem_literalBranches hitem, rfl⟩⟩

/-- A position of a schema of one type is the one of a map or one of an array. -/
theorem mem_typeParts {type : String} {part : Part} (h : part ∈ (schema.typeParts type).2) :
    (type = "object" ∧ part ∈ schema.recordParts.2) ∨ part ∈ schema.arrayParts.2 := by
  unfold typeParts at h
  split at h
  · exact Or.inl ⟨rfl, h⟩
  · exact Or.inr h
  · cases h

end Schema

/-! ## Covered points -/

/-- A walk entered the point, under its own name if it has one. An entry is walked as it is, and any
    other point has no composition left at its top. -/
structure Covered (registry : Registry) (document : Json) (requests : List Registry.Request)
    (point : Point) (place : Option String) : Prop where
  entered : registry.Entered document requests point.node place
  name : point.name = none ∨ point.name = place
  top : point.position = .nested ∨ ∀ schema, point.node.toSchema? = some schema →
    schema.visit place ≠ .composition

section Parts

variable {requests : List Registry.Request} {schema : Schema} {name place : Option String}
  {position : Position}

/-- A position that a walk entered, under its own name if it has one. -/
def CoveredPart (registry : Registry) (document : Json) (requests : List Registry.Request)
    (part : Part) : Prop :=
  ∃ place, registry.Entered document requests part.1 place ∧ (part.2 = none ∨ part.2 = place)

/-- A property that is rendered from its own position was walked there. One that is shown as the
    other member of a union with `null` was walked as a member of that union, or is overlooked. -/
theorem covered_property (hadds : Registry.Adds document requests registry)
    (hentered : registry.Entered document requests (.object schema) place)
    (hname : name = none ∨ name = place)
    {properties : Keyed SchemaNode} (hproperties : schema.cleanup.properties = some properties)
    {property : String × SchemaNode} (hmem : property ∈ properties) :
    Overlooked registry document requests ⟨.object schema, name, position⟩
        ⟨(Schema.propertyPart registry document name property).1,
          (Schema.propertyPart registry document name property).2, .nested⟩ ∨
      CoveredPart registry document requests
        (Schema.propertyPart registry document name property) := by
  -- The property itself was walked, under a name that fits.
  have hown : registry.Entered document requests property.2
      (place.map (· ++ Text.identifier property.1)) :=
    hentered.position rfl (Schema.visit_of_properties hproperties)
      (List.mem_map.mpr ⟨property, hmem, rfl⟩)
  have hname : name.map (· ++ Text.identifier property.1) = none ∨
      name.map (· ++ Text.identifier property.1) = place.map (· ++ Text.identifier property.1) := by
    rcases hname with rfl | rfl
    · exact Or.inl rfl
    · exact Or.inr rfl
  unfold Schema.propertyPart
  dsimp only
  split
  · next other hother =>
    obtain ⟨union, hunion, hother⟩ := Option.bind_eq_some_iff.mp hother
    by_cases happart : union.Bare → ∃ own reference, property.2.toSchema? = some own ∧
        own.ref = some reference ∧ registry.target? reference ≠ some union
    · exact Or.inl (.otherThanNull hproperties hmem hunion hother happart)
    refine Or.inr ?_
    obtain ⟨hbare, happart⟩ := Classical.not_imp.mp happart
    obtain ⟨members, hmembers, hmember⟩ := Schema.mem_of_withoutNull? hother
    cases href : property.2.toSchema?.bind (·.ref) with
    | none =>
      -- The union is the property itself.
      have hself : property.2.toSchema? = some union := by
        rwa [Fragment.annotated?, href] at hunion
      refine ⟨_, hown.position hself (hbare.visit_union hmembers)
        (List.mem_map.mpr ⟨other, hmember, rfl⟩), ?_⟩
      rw [hself, Option.any_some, hbare.ref, Option.isNone_none, if_pos rfl]
      rcases hname with hname | hname
      · exact Or.inl (by rw [hname]; rfl)
      · exact Or.inr (by rw [hname])
    | some reference =>
      -- The union is the target that was kept for the reference, and walked under its name.
      obtain ⟨own, hself, href⟩ := Option.bind_eq_some_iff.mp href
      have hkept : registry.target? reference = some union := by
        by_contra hne
        exact happart ⟨own, reference, hself, href, hne⟩
      obtain ⟨-, node, -, hstores⟩ := hadds.sound.kept reference union hkept
      have htarget := hadds.target_entered hkept
      refine ⟨_, htarget.position (SchemaNode.toSchema?_of_normal hstores.clean.1)
        (hbare.visit_union hmembers) (List.mem_map.mpr ⟨other, hmember, rfl⟩), Or.inl ?_⟩
      rw [hself, Option.any_some, href]
      rfl
  · exact Or.inr ⟨_, hown, hname⟩

/-- A member of a union was walked with it. -/
theorem covered_member (hentered : registry.Entered document requests (.object schema) place)
    (hname : name = none ∨ name = place) (hbare : schema.cleanup.Bare)
    {members : List SchemaNode} (hmembers : schema.cleanup.unionMembers? = some members)
    {member : SchemaNode} (hmem : member ∈ members) :
    CoveredPart registry document requests (member, name.map Text.enumChildName) := by
  refine ⟨_, hentered.position rfl (hbare.visit_union hmembers)
    (List.mem_map.mpr ⟨member, hmem, rfl⟩), ?_⟩
  rcases hname with rfl | rfl
  · exact Or.inl rfl
  · exact Or.inr rfl

/-- The values of a map of one type were walked with it. -/
theorem covered_values (hentered : registry.Entered document requests (.object schema) place)
    (hproperties : schema.cleanup.properties = none)
    (htype : schema.cleanup.typeName? = some "object") {part : Part}
    (hmem : part ∈ schema.cleanup.recordParts.2) : CoveredPart registry document requests part := by
  obtain ⟨hnone, hvalues⟩ := Schema.mem_recordParts hmem
  refine ⟨none, hentered.position rfl (Schema.visit_of_object hproperties htype) ?_, Or.inl hnone⟩
  rw [hvalues]
  exact List.mem_singleton.mpr rfl

/-- The items of an array were walked with it. -/
theorem covered_items (hentered : registry.Entered document requests (.object schema) place)
    (hbare : schema.cleanup.Bare) (hmembers : schema.cleanup.unionMembers? = none) {part : Part}
    (hmem : part ∈ schema.cleanup.arrayParts.2) : CoveredPart registry document requests part := by
  obtain ⟨hnone, hitem⟩ := Schema.mem_arrayParts hmem
  exact ⟨part.2, hentered.position rfl (hbare.visit_items hmembers) hitem, Or.inr rfl⟩

/-- A position below a union, or below a schema of some types, is covered. Only the values of a map
    of several types are overlooked. -/
theorem covered_bare_part (hentered : registry.Entered document requests (.object schema) place)
    (hname : name = none ∨ name = place) (hbare : schema.cleanup.Bare) {sure : Bool}
    {parts : List Part}
    (houtline : schema.cleanup.bareOutline name = .parts sure parts)
    {part : Part} (hmem : part ∈ parts) :
    Overlooked registry document requests ⟨.object schema, name, position⟩
        ⟨part.1, part.2, .nested⟩ ∨
      CoveredPart registry document requests part := by
  unfold Schema.bareOutline at houtline
  split at houtline
  -- The walk visits the members of a union and the items of an array, but no map at this point.
  · next members hmembers =>
    cases houtline
    obtain ⟨member, hmember, rfl⟩ := List.mem_map.mp hmem
    exact Or.inr (covered_member hentered hname hbare hmembers
      (Schema.mem_of_mem_literalBranches hmember))
  · next type hmembers htype =>
    cases houtline
    rcases Schema.mem_typeParts hmem with ⟨rfl, -⟩ | hmem
    · exact absurd (by rw [Schema.typeName?, htype]) hbare.type
    · exact Or.inr (covered_items hentered hbare hmembers hmem)
  · next type types hmembers htype =>
    cases houtline
    obtain ⟨type, htypes, hmem⟩ := List.mem_flatMap.mp hmem
    rcases Schema.mem_typeParts hmem with ⟨rfl, hmem⟩ | hmem
    · obtain ⟨hnone, hvalues⟩ := Schema.mem_recordParts hmem
      rw [hnone]
      exact Or.inl (.mapValues htype htypes hvalues)
    · exact Or.inr (covered_items hentered hbare hmembers hmem)
  · cases houtline
    cases hmem

/-- Every position that a fragment is put together from is covered or overlooked. -/
theorem covered_part (hadds : Registry.Adds document requests registry)
    (hentered : registry.Entered document requests (.object schema) place)
    (hname : name = none ∨ name = place)
    {sure : Bool} {parts : List Part}
    (houtline : schema.cleanup.outline registry document name position = .parts sure parts)
    {part : Part} (hmem : part ∈ parts) :
    Overlooked registry document requests ⟨.object schema, name, position⟩
        ⟨part.1, part.2, .nested⟩ ∨
      CoveredPart registry document requests part := by
  unfold Schema.outline at houtline
  cases hproperties : schema.cleanup.properties with
  | some properties =>
    rw [hproperties] at houtline
    cases houtline
    obtain ⟨property, hproperty, rfl⟩ := List.mem_map.mp hmem
    exact covered_property hadds hentered hname hproperties hproperty
  | none =>
    rw [hproperties] at houtline
    dsimp only at houtline
    split at houtline
    · cases houtline
      cases hmem
    · split at houtline
      · next hobject =>
        cases houtline
        exact Or.inr (covered_values hentered hproperties (by simpa using hobject) hmem)
      · next hobject =>
        split at houtline
        · cases houtline
          cases hmem
        · cases houtline
          cases hmem
        · cases houtline
        · cases houtline
          cases hmem
        · split at houtline
          · cases houtline
            cases hmem
          · cases houtline
        · next hconst henum href hallOf =>
          -- Every keyword that comes before unions and items has been ruled out.
          have hbare : schema.cleanup.Bare :=
            ⟨hproperties, by simpa using hobject, Schema.isEnumLike_eq_false henum hconst, href,
              hallOf⟩
          exact covered_bare_part hentered hname hbare houtline hmem

/-- A composition that is written out is one for the walk too, and no declaration stands for it. -/
theorem visit_of_outline_composition {schema : Schema} {child : Option String}
    (h : schema.outline registry document name position = .composition child) :
    (∀ place, schema.visit place = .composition) ∧ child = name.map Text.enumChildName ∧
      Schema.declaredChild? registry name position = none := by
  unfold Schema.outline at h
  split at h
  · cases h
  · next hproperties =>
    split at h
    · cases h
    · split at h
      · cases h
      · next hobject =>
        split at h
        · cases h
        · cases h
        · cases h
        · cases h
        · next member members hconst henum href hallOf =>
          split at h
          · cases h
          · next hdeclared =>
            cases h
            refine ⟨fun place => ?_, rfl, by simpa using hdeclared⟩
            unfold Schema.visit
            rw [hproperties]
            dsimp only
            rw [if_neg hobject, Schema.isEnumLike_eq_false henum hconst,
              if_neg Bool.false_ne_true, href]
            dsimp only
            rw [hallOf, Option.isSome_some, if_pos rfl]
        · unfold Schema.bareOutline at h
          split at h <;> cases h

/-- A reference that is printed is one for the walk too. -/
theorem visit_of_outline_reference {schema : Schema} {reference : String}
    (h : schema.outline registry document name position = .reference reference)
    (place : Option String) : schema.visit place = .reference reference := by
  unfold Schema.outline at h
  split at h
  · cases h
  · next hproperties =>
    split at h
    · cases h
    · split at h
      · cases h
      · next hobject =>
        split at h
        · cases h
        · cases h
        · next hconst henum href =>
          cases h
          unfold Schema.visit
          rw [hproperties]
          dsimp only
          rw [if_neg hobject, Schema.isEnumLike_eq_false henum hconst,
            if_neg Bool.false_ne_true, href]
        · cases h
        · split at h <;> cases h
        · unfold Schema.bareOutline at h
          split at h <;> cases h

end Parts

/-- A step from a covered point leads to a covered one, unless the step is overlooked. -/
theorem covered_step {requests : List Registry.Request} {before after : Point}
    {place : Option String} (hadds : Registry.Adds document requests registry)
    (hcovered : Covered registry document requests before place)
    (hstep : RenderStep registry document before after) :
    Overlooked registry document requests before after ∨
      ∃ place, Covered registry document requests after place := by
  obtain ⟨hentered, hname, htop⟩ := hcovered
  cases hstep with
  | @part schema name position sure parts part houtline hmem =>
    rcases covered_part hadds hentered hname houtline hmem with h | ⟨place, hpart, hplace⟩
    · exact Or.inl h
    · exact Or.inr ⟨place, hpart, hplace, Or.inl rfl⟩
  | @composition schema merged name child position houtline hflattens =>
    obtain ⟨hvisit, rfl, hdeclared⟩ := visit_of_outline_composition houtline
    obtain rfl : position = .nested := htop.resolve_right fun h => h _ rfl (hvisit place)
    cases place with
    | none =>
      obtain rfl : name = none := hname.elim id id
      exact Or.inr ⟨none, hentered.composition_none rfl (hvisit none) hflattens, Or.inl rfl,
        Or.inl rfl⟩
    | some parent =>
      rcases hname with rfl | rfl
      · -- Walked under the derived name, if the entry there is the one of this composition.
        by_cases htaken : ∀ entry, registry.get? (Text.enumChildName parent) = some entry →
            entry.schema ≠ .object merged
        · exact Or.inl (.composition hentered.walked.reached hflattens htaken)
        · simp only [not_forall, not_not, exists_prop] at htaken
          obtain ⟨entry, hentry, hschema⟩ := htaken
          have hmerged := hadds.entry_entered (Keyed.mem_of_get? hentry)
          dsimp only at hmerged
          rw [hschema] at hmerged
          exact Or.inr ⟨_, hmerged, Or.inl rfl, Or.inl rfl⟩
      · -- A named composition has a declaration, by which it is printed.
        have hhas := hentered.walked.has_enumChildName rfl (hvisit _)
        have hchild : Schema.declaredChild? registry (some parent) .nested =
            some (Text.enumChildName parent) :=
          Option.filter_eq_some_iff.mpr ⟨rfl, hhas⟩
        -- So it would not have been written out.
        rw [hchild] at hdeclared
        cases hdeclared

/-! ## References that are left out -/

/-- An entry is a covered point. -/
theorem covered_ofEntry {requests : List Registry.Request} {entry : String × Entry}
    (hadds : Registry.Adds document requests registry) (hmem : entry ∈ registry.entries) :
    Covered registry document requests (Point.ofEntry entry) (some entry.1) :=
  ⟨hadds.entry_entered hmem, Or.inr rfl,
    Or.inr fun _ h => hadds.sound.visit_ne_composition hmem h⟩

/-- A path from a covered point stays covered up to its first overlooked step. -/
theorem covered_path {requests : List Registry.Request} {start point : Point}
    (hadds : Registry.Adds document requests registry)
    (hstart : ∃ place, Covered registry document requests start place)
    (hpath : ReflTransGen (RenderStep registry document) start point) :
    (∃ place, Covered registry document requests point place) ∨ ∃ before after,
      ReflTransGen (RenderStep registry document) start before ∧
      RenderStep registry document before after ∧
      Overlooked registry document requests before after ∧
      ReflTransGen (RenderStep registry document) after point := by
  induction hpath with
  | refl => exact Or.inl hstart
  | @tail mid last hmid hlast ih =>
    rcases ih with ⟨place, hcovered⟩ | ⟨before, after, hbefore, hstep, hover, hafter⟩
    · rcases covered_step hadds hcovered hlast with hover | hcovered
      · exact Or.inr ⟨mid, last, hmid, hlast, hover, .refl⟩
      · exact Or.inl hcovered
    · exact Or.inr ⟨before, after, hbefore, hstep, hover, hafter.tail hlast⟩

/-- A reference printed at a covered point is registered, when it leads somewhere. -/
theorem has_of_covered {requests : List Registry.Request} {point : Point} {place : Option String}
    {reference : String} {value : Json} (hadds : Registry.Adds document requests registry)
    (hcovered : Covered registry document requests point place)
    (hprints : Prints registry document point reference)
    (hresolve : Reference.resolve document reference = some value) :
    registry.has (Reference.name reference) = true := by
  obtain ⟨schema, hnode, houtline⟩ := hprints
  have hentered := hcovered.entered
  rw [hnode] at hentered
  have htarget : Reference.resolveNode document reference = some (.ofJson value) := by
    rw [Reference.resolveNode, hresolve, Option.map_some]
  exact hadds.sound.has_of_walked hentered.walked rfl
    (visit_of_outline_reference houtline place) htarget

/-- The point is rendered beyond a step that the walk overlooked. -/
def BeyondOverlooked (registry : Registry) (document : Json) (requests : List Registry.Request)
    (point : Point) : Prop :=
  ∃ before after, Rendered registry document before ∧ RenderStep registry document before after ∧
    Overlooked registry document requests before after ∧
    ReflTransGen (RenderStep registry document) after point

theorem BeyondOverlooked.rendered {requests : List Registry.Request} {point : Point}
    (h : BeyondOverlooked registry document requests point) :
    Rendered registry document point := by
  obtain ⟨before, after, ⟨entry, hentry, hbefore⟩, hstep, -, hafter⟩ := h
  exact ⟨entry, hentry, (hbefore.tail hstep).trans hafter⟩

/-- A reference that leads somewhere is printed at the point, and nothing has been registered under
    its name: no call, no walked reference, no enumeration and no composition. -/
def Unmet (registry : Registry) (document : Json) (requests : List Registry.Request)
    (point : Point) : Prop :=
  ∃ reference, Prints registry document point reference ∧
    (Reference.resolve document reference).isSome = true ∧
    ∀ stored, ¬ Registry.Origin document requests registry (Reference.name reference) stored

theorem omits_iff_unmet {requests : List Registry.Request}
    (h : Registry.Adds document requests registry) (point : Point) :
    Omits registry document point ↔ Unmet registry document requests point := by
  have hname : ∀ name, registry.has name = false ↔
      ∀ stored, ¬ Registry.Origin document requests registry name stored := fun name => by
    rw [← Bool.not_eq_true, h.has_iff_origin, not_exists]
  unfold Omits Unmet
  simp only [hname]

/-- A rendered point leaves out a reference that leads somewhere just when it is beyond a step that
    the walk overlooked, and nothing else has been registered under the name. -/
theorem omits_iff_beyond_overlooked {requests : List Registry.Request}
    (h : Registry.Adds document requests registry) (point : Point) :
    (Rendered registry document point ∧ Omits registry document point) ↔
      (BeyondOverlooked registry document requests point ∧
        Unmet registry document requests point) := by
  rw [← omits_iff_unmet h]
  constructor
  · rintro ⟨⟨entry, hentry, hpath⟩, homits⟩
    refine ⟨?_, homits⟩
    obtain ⟨reference, hprints, hresolve, hhas⟩ := homits
    obtain ⟨value, hvalue⟩ := Option.isSome_iff_exists.mp hresolve
    rcases covered_path h ⟨_, covered_ofEntry h hentry⟩ hpath with
      ⟨place, hcovered⟩ | ⟨before, after, hbefore, hstep, hover, hafter⟩
    · rw [has_of_covered h hcovered hprints hvalue] at hhas
      cases hhas
    · exact ⟨before, after, ⟨entry, hentry, hbefore⟩, hstep, hover, hafter⟩
  · rintro ⟨hbeyond, homits⟩
    exact ⟨hbeyond.rendered, homits⟩

/-! ### A reference that is overlooked -/

/-- A document with the schema of a text. -/
def texts : Json := .obj [("X", .obj [("type", .str "string")])]

/-- A reference to that schema. -/
def textReference : Schema where
  ref := some "#/X"

/-- A text, or a map of texts. -/
def textOrMap : Schema where
  type := some (.several ["object", "string"])
  additionalProperties := some (.object textReference)

/-- An object with a text or a map of texts. -/
def labelled : Schema where
  properties := some [("m", .object textOrMap)]

theorem toSchema?_textReference :
    (SchemaNode.object textReference).toSchema? = some textReference :=
  SchemaNode.toSchema?_of_normal (Schema.normal_of_plain rfl rfl rfl nofun)

theorem toSchema?_textOrMap : (SchemaNode.object textOrMap).toSchema? = some textOrMap := by
  refine SchemaNode.toSchema?_of_normal (Schema.normal_of_plain rfl rfl rfl ?_)
  intro names h
  cases h
  exact ⟨by decide, by decide⟩

theorem toSchema?_labelled : (SchemaNode.object labelled).toSchema? = some labelled :=
  SchemaNode.toSchema?_of_normal (Schema.normal_of_plain rfl rfl rfl nofun)

/-- The call that registers the object. -/
def labelledCall : Registry.Request := ⟨"Thing", .object labelled, false⟩

/-- The only entry once the object was registered. -/
def labelledEntry : String × Entry := ("Thing", ⟨.object labelled, true, false⟩)

/-- The registry once the object was registered. -/
def labelledRegistry : Registry := { entries := [labelledEntry] }

theorem adds_labelled : Registry.Adds texts [labelledCall] labelledRegistry := by
  have hinner : ∀ place, Registry.walk texts 1 .empty (.object textOrMap) place =
      some .empty := by
    intro place
    rw [Registry.walk_positions toSchema?_textOrMap
      ((Schema.Bare.mk rfl (by decide) rfl rfl rfl).visit_items rfl)]
    rfl
  have hwalk : Registry.walk texts 2 .empty (.object labelled) (some "Thing") = some .empty := by
    rw [Registry.walk_positions toSchema?_labelled (Schema.visit_of_properties rfl)]
    change (Registry.walk texts 1 .empty (.object textOrMap) _ >>= fun registry => some registry) =
      some .empty
    rw [hinner]
    rfl
  have hclean : (SchemaNode.object labelled).cleanup = .object labelled :=
    congrArg SchemaNode.object (Option.some.inj toSchema?_labelled)
  suffices hadd : Registry.add texts 2 .empty "Thing" (.object labelled) false =
      some ("Thing", labelledRegistry) from .snoc labelledCall .nil hadd
  unfold Registry.add
  dsimp only
  rw [hclean]
  change (Registry.walk texts 2 .empty (.object labelled) (some "Thing") >>= fun registry =>
    some ("Thing", registry.insertNew "Thing" ⟨.object labelled, true, false⟩)) = _
  rw [hwalk]
  rfl

/-- The reference to the values of the map is left out. -/
theorem labelled_omits_reference : Registry.Adds texts [labelledCall] labelledRegistry ∧
    ∃ point, (Rendered labelledRegistry texts point ∧ Omits labelledRegistry texts point) ∧
      BeyondOverlooked labelledRegistry texts [labelledCall] point ∧
        Unmet labelledRegistry texts [labelledCall] point := by
  -- Rendering goes from the entry to its property, and from there to the values of the map.
  have hproperty : RenderStep labelledRegistry texts (Point.ofEntry labelledEntry)
      ⟨.object textOrMap, some ("Thing" ++ Text.identifier "m"), .nested⟩ := by
    have houtline : labelled.cleanup.outline labelledRegistry texts (some "Thing")
        (Point.ofEntry labelledEntry).position =
          .parts false [(.object textOrMap, some ("Thing" ++ Text.identifier "m"))] := by
      rw [Option.some.inj toSchema?_labelled]
      change Outline.parts false [Schema.propertyPart _ _ _ ("m", .object textOrMap)] = _
      unfold Schema.propertyPart
      dsimp only
      rw [toSchema?_textOrMap]
      rfl
    exact .part houtline (List.mem_singleton.mpr rfl)
  have hvalues : RenderStep labelledRegistry texts
      ⟨.object textOrMap, some ("Thing" ++ Text.identifier "m"), .nested⟩
      ⟨.object textReference, none, .nested⟩ := by
    have houtline : textOrMap.cleanup.outline labelledRegistry texts
        (some ("Thing" ++ Text.identifier "m")) .nested =
          .parts true [(.object textReference, none)] := by
      rw [Option.some.inj toSchema?_textOrMap]
      rfl
    exact .part houtline (List.mem_singleton.mpr rfl)
  have hrendered : Rendered labelledRegistry texts ⟨.object textReference, none, .nested⟩ :=
    ⟨labelledEntry, List.mem_singleton.mpr rfl, (ReflTransGen.single hproperty).tail hvalues⟩
  have homits : Omits labelledRegistry texts ⟨.object textReference, none, .nested⟩ := by
    refine ⟨"#/X", ⟨textReference, rfl, ?_⟩, by decide +kernel, by decide +kernel⟩
    rw [Option.some.inj toSchema?_textReference]
    rfl
  exact ⟨adds_labelled, _, ⟨hrendered, homits⟩,
    (omits_iff_beyond_overlooked adds_labelled _).mp ⟨hrendered, homits⟩⟩

end TypedClient
