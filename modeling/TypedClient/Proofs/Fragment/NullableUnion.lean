/-
  TypedClient.Proofs.Fragment.NullableUnion

  A property that is a schema or `null`, by a union of the two, is rendered as one of the schema
  with the mark.

  The union is not entered: the other member is rendered in its place, under no name, and the
  property is known to be nullable.  The marked schema is rendered itself, and rendering does not
  read the mark, not even inside a composition.  What else is known of the property is the same as
  long as the schema says nothing that counts for properties alone: no default and no text that
  documents it.
-/
import TypedClient.Proofs.Fragment.Nullability

namespace TypedClient
namespace Schema

/-- The schema of `null`. -/
def nullType : Schema where
  type := some (.single "null")

/-- An object with these properties and the other keywords of the schema. -/
def withProperties (outer : Schema) (properties : Keyed SchemaNode) : Schema :=
  { outer with properties := some properties }

/-- The schema beside `null`, in either order. -/
inductive BesideNull (schema : Schema) : List SchemaNode → Prop where
  | first : BesideNull schema [.object schema, .object nullType]
  | last : BesideNull schema [.object nullType, .object schema]

/-- A union of the schema and `null` that has no other keyword. -/
inductive NullUnion (schema : Schema) : Schema → Prop where
  | anyOf {members : List SchemaNode} (beside : BesideNull schema members) :
      NullUnion schema { anyOf := some members }
  | oneOf {members : List SchemaNode} (beside : BesideNull schema members) :
      NullUnion schema { oneOf := some members }

section

variable {schema union : Schema} {members : List SchemaNode}

theorem toSchema?_nullType : (SchemaNode.object nullType).toSchema? = some nullType :=
  SchemaNode.toSchema?_of_normal (normal_of_plain rfl rfl rfl nofun)

theorem BesideNull.length (h : BesideNull schema members) : members.length = 2 := by
  cases h <;> rfl

/-- Cleaning leaves such a union as it is. -/
theorem NullUnion.normal (h : NullUnion schema union) : Normal union := by
  have hlone : ∀ composition : Composition, ∀ node, composition.members? union ≠ some [node] := by
    intro composition node hmembers
    cases h with
    | anyOf beside =>
      cases composition with
      | anyOf => exact absurd (Option.some.inj hmembers ▸ beside.length) (by simp)
      | allOf | oneOf => cases hmembers
    | oneOf beside =>
      cases composition with
      | oneOf => exact absurd (Option.some.inj hmembers ▸ beside.length) (by simp)
      | allOf | anyOf => cases hmembers
  refine ⟨fun composition _ node hmembers => absurd hmembers (hlone composition node), ?_, ?_⟩
  · cases h with
    | anyOf => nofun
    | oneOf beside =>
      intro hempty
      exact absurd (Option.some.inj hempty ▸ beside.length) (by decide)
  · cases h <;> nofun

theorem NullUnion.exists_members (h : NullUnion schema union) :
    ∃ members, union.unionMembers? = some members ∧ BesideNull schema members := by
  cases h with
  | anyOf beside => exact ⟨_, rfl, beside⟩
  | oneOf beside => exact ⟨_, rfl, beside⟩

/-- What is left of the union without `null` is the schema, when that is not `null` itself. -/
theorem NullUnion.withoutNull? (h : NullUnion schema union) (hclean : Normal schema)
    (hnull : schema.isNull = false) : union.withoutNull? = some (.object schema) := by
  have hschema : (SchemaNode.object schema).toSchema?.any isNull = false := by
    rw [SchemaNode.toSchema?_of_normal hclean]
    exact hnull
  have hnullType : (SchemaNode.object nullType).toSchema?.any isNull = true := by
    rw [toSchema?_nullType]
    rfl
  obtain ⟨members, hmembers, hbeside⟩ := h.exists_members
  unfold Schema.withoutNull?
  rw [hmembers]
  cases hbeside with
  | first => simp only [hschema, hnullType]
  | last => simp only [hschema, hnullType]

end
end Schema

namespace Fragment

section

variable {registry : Registry} {document : Json} {render : Renderer} {schema union : Schema}

/-- What is known of a property that is described by the schema alone. -/
theorem ofProperty_inline (hclean : Schema.Normal schema) (href : schema.ref = none) (key : String)
    (name : Option String) (isRequired : Bool) :
    ofProperty render registry document key (.object schema) name isRequired =
      (renderProperty render (.object schema) name schema schema).map
        (Option.map fun fragment => (factsOf key isRequired schema schema, fragment)) := by
  refine ofProperty_eq_facts (SchemaNode.toSchema?_of_normal hclean) ?_ key name isRequired
  unfold annotated?
  rw [Option.bind_some, href]

/-- The union with `null` is rendered as its other member, and is nullable. -/
theorem ofProperty_nullUnion (h : Schema.NullUnion schema union) (hclean : Schema.Normal schema)
    (hnull : schema.isNull = false) (key : String) (isRequired : Bool) :
    ofProperty render registry document key (.object union) none isRequired =
      (render (.object schema) none).map
        (Option.map fun fragment => (⟨key, none, !isRequired, true, none⟩, fragment)) := by
  have hother := h.withoutNull? hclean hnull
  have href : union.ref = none := by cases h <;> rfl
  have hrender : renderProperty render (.object union) none union union =
      render (.object schema) none := by
    unfold renderProperty
    rw [hother, href]
    rfl
  have hfacts : factsOf key isRequired union union = ⟨key, none, !isRequired, true, none⟩ := by
    unfold factsOf
    rw [hother]
    cases h <;> rfl
  rw [ofProperty_inline h.normal href, hrender, hfacts]

/-- The marked schema is rendered itself, and is nullable. -/
theorem ofProperty_withNullable (hclean : Schema.Normal schema) (href : schema.ref = none)
    (hother : schema.withoutNull? = none) (hdefault : schema.default = none)
    (hdescription : schema.description = none) (htitle : schema.title = none) (key : String)
    (isRequired : Bool) :
    ofProperty render registry document key (.object (schema.withNullable (some true))) none
        isRequired =
      (render (.object (schema.withNullable (some true))) none).map
        (Option.map fun fragment => (⟨key, none, !isRequired, true, none⟩, fragment)) := by
  have hsummary : (schema.withNullable (some true)).summary? = none := by
    change schema.description.or schema.title = none
    rw [hdescription, htitle]
    rfl
  have hvalue : (schema.withNullable (some true)).default = none := hdefault
  have hfacts : factsOf key isRequired (schema.withNullable (some true))
      (schema.withNullable (some true)) = ⟨key, none, !isRequired, true, none⟩ := by
    unfold factsOf
    rw [Schema.withNullable_withoutNull?, hother, hsummary, hvalue]
    rfl
  rw [ofProperty_inline (Schema.normal_withNullable hclean _) href, hfacts]
  unfold renderProperty
  rw [Schema.withNullable_withoutNull?, hother]

/-- An object is rendered property by property: one may be replaced by another that is rendered
    alike. -/
theorem ofObject_congr {key : String} {node other : SchemaNode} {position : Position}
    (hsame : ∀ isRequired, ofProperty render registry document key node none isRequired =
      ofProperty render registry document key other none isRequired)
    (outer : Schema) (before after first second : Keyed SchemaNode) :
    ofObject render registry document (outer.withProperties first)
        (before ++ (key, node) :: after) none position =
      ofObject render registry document (outer.withProperties second)
        (before ++ (key, other) :: after) none position := by
  have hfilled : ∀ property : String × SchemaNode,
      (before ++ property :: after : Keyed SchemaNode).isEmpty = false := by simp
  unfold ofObject Schema.withProperties
  simp only [List.mapM_append, List.mapM_cons, Option.map_none, hsame, hfilled]

/-- A schema with properties is rendered as an object. -/
theorem ofSchema_of_properties {fuel : Nat} {properties : Keyed SchemaNode}
    (hproperties : schema.properties = some properties) (name : Option String)
    (position : Position) :
    ofSchema registry document (fuel + 1) schema name position =
      ofObject (fun node name => ofNode registry document fuel node name .nested) registry document
        schema properties name position := by
  rw [ofSchema, hproperties]

/-- The same for objects of which one property was replaced. -/
theorem ofNode_congr {key : String} {node other : SchemaNode} {outer first second : Schema}
    {before after : Keyed SchemaNode}
    (hfirst : first.cleanup = outer.withProperties (before ++ (key, node) :: after))
    (hsecond : second.cleanup = outer.withProperties (before ++ (key, other) :: after))
    (hsame : ∀ fuel isRequired,
      ofProperty (fun node name => ofNode registry document fuel node name .nested)
        registry document key node none isRequired =
      ofProperty (fun node name => ofNode registry document fuel node name .nested)
        registry document key other none isRequired) (fuel : Nat) (position : Position) :
    ofNode registry document fuel (.object first) none position =
      ofNode registry document fuel (.object second) none position := by
  -- It takes two units of fuel to come to the properties of an object.
  match fuel with
  | 0 => rfl
  | 1 => rw [ofNode, ofNode, ofSchema, ofSchema]
  | fuel + 2 =>
    rw [ofNode, ofNode, hfirst, hsecond, ofSchema_of_properties rfl, ofSchema_of_properties rfl]
    exact ofObject_congr (hsame fuel) outer before after _ _

/-- A property of a clean schema that says nothing for properties alone and does not admit `null`
    yet: declared as a union of the schema and `null`, it is rendered as it is for the schema with
    the mark.  So is every object that declares it, at a position without a name and in every
    flavor. -/
theorem nullUnion_rendered_as_marked (hclean : schema.cleanup = schema) (href : schema.ref = none)
    (hnull : schema.isNull = false) (hother : schema.withoutNull? = none)
    (hdefault : schema.default = none) (hdescription : schema.description = none)
    (htitle : schema.title = none) (hunion : Schema.NullUnion schema union)
    (registry : Registry) (document : Json) (fuel : Nat) (key : String) :
    (∀ isRequired, ofProperty (fun node name => ofNode registry document fuel node name .nested)
        registry document key (.object union) none isRequired =
      ofProperty (fun node name => ofNode registry document fuel node name .nested)
        registry document key (.object (schema.withNullable (some true))) none isRequired) ∧
    ∀ (outer first second : Schema) (before after : Keyed SchemaNode),
      first.cleanup = outer.withProperties (before ++ (key, .object union) :: after) →
      second.cleanup = outer.withProperties
        (before ++ (key, .object (schema.withNullable (some true))) :: after) →
      (∀ position, ofNode registry document fuel (.object first) none position =
        ofNode registry document fuel (.object second) none position) ∧
      ∀ (flavor : Flavor) (topLevel : Bool),
        registry.sourceOf document fuel flavor.spelling (.object first) none topLevel =
          registry.sourceOf document fuel flavor.spelling (.object second) none topLevel := by
  have hnormal : Schema.Normal schema := hclean ▸ Schema.normal_cleanup schema
  have hproperty : ∀ fuel isRequired,
      ofProperty (fun node name => ofNode registry document fuel node name .nested)
        registry document key (.object union) none isRequired =
      ofProperty (fun node name => ofNode registry document fuel node name .nested)
        registry document key (.object (schema.withNullable (some true))) none isRequired := by
    intro fuel isRequired
    have hmarked : (schema.withNullable (some true)).cleanup =
        schema.cleanup.withNullable (some true) := by
      rw [hclean]
      exact Schema.cleanup_of_normal (Schema.normal_withNullable hnormal _)
    rw [ofProperty_nullUnion hunion hnormal hnull, ofProperty_withNullable hnormal href hother
      hdefault hdescription htitle, ofNode_marked (.refl registry) hmarked]
  refine ⟨hproperty fuel, fun outer first second before after hfirst hsecond => ?_⟩
  have hnode := ofNode_congr hfirst hsecond hproperty fuel
  refine ⟨hnode, fun flavor topLevel => ?_⟩
  unfold Registry.sourceOf
  rw [hnode]

end

/-- A document with a schema that others are composed from. -/
def kennel : Json :=
  .obj [("Animal", .obj [("properties", .obj [("id", .obj [("type", .str "string")])])])]

/-- A composition: an animal whose identifier is required. -/
def dog : Schema where
  allOf := some [.object { ref := some "#/Animal" }, .object { required := some ["id"] }]

/-- The union of `null` and the composition. -/
def dogOrNull : Schema where
  oneOf := some [.object Schema.nullType, .object dog]

/-- An object with one property. -/
def holdsDog (property : Schema) : Schema :=
  Schema.empty.withProperties [("dog", .object property)]

/-- A composition that may be `null` is written out in both ways with the same text. -/
theorem dogOrNull_rendered_as_marked :
    dog.cleanup = dog ∧ dog.ref = none ∧ dog.isNull = false ∧ dog.withoutNull? = none ∧
    dog.default = none ∧ dog.description = none ∧ dog.title = none ∧
    Schema.NullUnion dog dogOrNull ∧
    ∀ property ∈ [dogOrNull, dog.withNullable (some true)],
      Registry.empty.sourceOf kennel 16 Flavor.types.spelling (.object (holdsDog property)) none
          true =
        some (some ("\x7b\n  readonly \"dog\"?: \x7b\n    readonly \"id\": string\n  \x7d" ++
          " | null | undefined\n\x7d")) ∧
      Registry.empty.sourceOf kennel 16 Flavor.schema.spelling (.object (holdsDog property)) none
          true =
        some (some ("S.Struct(\x7b\n  \"dog\": S.optionalWith(S.Struct(\x7b\n" ++
          "    \"id\": S.String\n  \x7d), \x7b nullable: true \x7d)\n\x7d)")) := by
  have hclean : dog.cleanup = dog := by
    refine Schema.cleanup_of_normal ⟨fun composition _ node h => ?_, nofun, nofun⟩
    cases composition <;> cases h
  have hholds : ∀ property, (holdsDog property).cleanup = holdsDog property := fun property =>
    Schema.cleanup_of_normal (Schema.normal_of_plain rfl rfl rfl nofun)
  have hunion : Schema.NullUnion dog dogOrNull := .oneOf .last
  have hsame := ((nullUnion_rendered_as_marked hclean rfl rfl rfl rfl rfl rfl hunion
    Registry.empty kennel 16 "dog").2 .empty (holdsDog dogOrNull)
      (holdsDog (dog.withNullable (some true))) [] [] (hholds _) (hholds _)).2
  refine ⟨hclean, rfl, rfl, rfl, rfl, rfl, rfl, hunion, fun property hmem => ?_⟩
  simp only [List.mem_cons, List.not_mem_nil, or_false] at hmem
  rcases hmem with rfl | rfl
  · rw [hsame, hsame]
    decide +kernel
  · decide +kernel

end Fragment
end TypedClient
