/-
  TypedClient.Proofs.Fragment.Nullability

  Which positions print that a schema is nullable, in plain type declarations.

  Rendering reads the mark of a schema for the lines of an object and nowhere else.  So the text at
  any other position is the same whether the schema is marked or not: an array item, a member of a
  tuple or of a union, the values of a map and the root of a declaration all lose the `null`.
-/
import TypedClient.Generate
import TypedClient.Proofs.Registry.Growth
import TypedClient.Proofs.Schema.Nullable

namespace TypedClient

/-! ## Registries that render alike -/

namespace Registry

/-- Rendering cannot tell the registries apart: they have the same names, the same of these stand
    for enumerations, and references have the same targets. -/
structure Alike (first second : Registry) : Prop where
  has : second.has = first.has
  isEnum : second.isEnum = first.isEnum
  target? : second.target? = first.target?

theorem Alike.refl (registry : Registry) : Alike registry registry := ⟨rfl, rfl, rfl⟩

end Registry

open Registry (Alike)

namespace Schema

variable (schema : Schema) (nullable : Option Bool)

@[simp] theorem withNullable_properties :
    (schema.withNullable nullable).properties = schema.properties := rfl

@[simp] theorem withNullable_typeName? :
    (schema.withNullable nullable).typeName? = schema.typeName? := rfl

@[simp] theorem withNullable_type : (schema.withNullable nullable).type = schema.type := rfl

@[simp] theorem withNullable_const : (schema.withNullable nullable).const = schema.const := rfl

@[simp] theorem withNullable_enum : (schema.withNullable nullable).enum = schema.enum := rfl

@[simp] theorem withNullable_ref : (schema.withNullable nullable).ref = schema.ref := rfl

@[simp] theorem withNullable_allOf : (schema.withNullable nullable).allOf = schema.allOf := rfl

@[simp] theorem withNullable_withoutNull? :
    (schema.withNullable nullable).withoutNull? = schema.withoutNull? := rfl

@[simp] theorem withNullable_unionMembers? :
    (schema.withNullable nullable).unionMembers? = schema.unionMembers? := rfl

end Schema

namespace Fragment

section Alike

variable {first second : Registry} {document : Json} {render : Renderer} {schema : Schema}

theorem annotated?_alike (h : Alike first second) (own : Option Schema) :
    annotated? second document own = annotated? first document own := by
  unfold annotated?
  rw [h.target?]

theorem ofProperty_alike (h : Alike first second) (key : String) (node : SchemaNode)
    (name : Option String) (isRequired : Bool) :
    ofProperty render second document key node name isRequired =
      ofProperty render first document key node name isRequired := by
  unfold ofProperty
  dsimp only
  rw [annotated?_alike h]

theorem ofObject_alike (h : Alike first second) (properties : Keyed SchemaNode)
    (name : Option String) (position : Position) (nullable : Option Bool) :
    ofObject render second document (schema.withNullable nullable) properties name position =
      ofObject render first document schema properties name position := by
  unfold ofObject
  simp only [ofProperty_alike h]
  rfl

theorem ofRecord_withNullable (nullable : Option Bool) :
    ofRecord render (schema.withNullable nullable) = ofRecord render schema := rfl

theorem ofType_withNullable (nullable : Option Bool) :
    ofType render (schema.withNullable nullable) = ofType render schema := rfl

theorem ofEnum_alike (h : Alike first second) (values : List Json) (name : Option String)
    (position : Position) :
    ofEnum second values name position = ofEnum first values name position := by
  unfold ofEnum
  rw [h.isEnum]

theorem ofReference_alike (h : Alike first second) (reference : String) :
    ofReference second reference = ofReference first reference := by
  unfold ofReference
  rw [h.has]

/-- Rendering gives the same fragment for a schema with another mark, in a registry that renders
    alike. -/
theorem render_withNullable (h : Alike first second) (document : Json) (fuel : Nat) :
    (∀ node name position, ofNode second document fuel node name position =
      ofNode first document fuel node name position) ∧
    ∀ schema nullable name position,
      ofSchema second document fuel (Schema.withNullable schema nullable) name position =
        ofSchema first document fuel schema name position := by
  induction fuel with
  | zero => exact ⟨fun _ _ _ => rfl, fun _ _ _ _ => rfl⟩
  | succ fuel ih =>
    obtain ⟨hnode, hschema⟩ := ih
    constructor
    · intro node name position
      cases node with
      | bool admits => cases admits <;> rfl
      | object schema =>
        have hown := hschema schema.cleanup schema.cleanup.nullable name position
        rw [Schema.withNullable_self] at hown
        exact hown
    · intro schema nullable name position
      have hcomposition : ∀ child,
          ((schema.withNullable nullable).resolveAllOf? document fuel >>= fun merged =>
            ofSchema second document fuel merged child position) =
          (schema.resolveAllOf? document fuel >>= fun merged =>
            ofSchema first document fuel merged child position) := by
        intro child
        obtain ⟨handed, hhanded⟩ :=
          Schema.flattenWithin_withNullable document fuel [] schema nullable
        unfold Schema.resolveAllOf?
        rw [hhanded]
        cases Schema.flattenWithin document fuel [] schema with
        | none => rfl
        | some merged => exact hschema merged handed child position
      -- The dispatch itself reads no mark: what is left are the parts that it hands the schema to.
      rw [ofSchema, ofSchema]
      simp only [hnode, Schema.withNullable_properties, Schema.withNullable_typeName?,
        Schema.withNullable_const, Schema.withNullable_enum, Schema.withNullable_ref,
        Schema.withNullable_allOf, Schema.withNullable_unionMembers?, Schema.withNullable_type,
        ofObject_alike h, ofEnum_alike h, ofReference_alike h, h.has, hcomposition,
        ofRecord_withNullable, ofType_withNullable]

/-- The same for nodes whose schemas are cleaned to one that has another mark. -/
theorem ofNode_marked (h : Alike first second) {other : Schema} {nullable : Option Bool}
    (hother : other.cleanup = schema.cleanup.withNullable nullable) (document : Json) (fuel : Nat)
    (name : Option String) (position : Position) :
    ofNode second document fuel (.object other) name position =
      ofNode first document fuel (.object schema) name position := by
  cases fuel with
  | zero => rfl
  | succ fuel =>
    rw [ofNode, ofNode, hother]
    exact (render_withNullable h document fuel).2 schema.cleanup nullable name position

end Alike

/-! ## Properties -/

/-- A property prints `null` for the schema already: the schema or the target of its reference is
    marked, has `null` for one of two alternatives, or has it for a default. -/
def ShowsNull (registry : Registry) (document : Json) (schema : Schema) : Prop :=
  ∃ full, annotated? registry document (some schema) = some full ∧
    (schema.nullable = some true ∨ full.nullable = some true ∨
      full.withoutNull?.isSome = true ∨ schema.default.or full.default = some .null)

/-- What is known of a property with a schema of its own, which `full` describes. -/
def factsOf (key : String) (isRequired : Bool) (own full : Schema) : PropertyFacts where
  key := key
  description := own.summary?.or full.summary?
  isOptional := !isRequired
  isNullable := full.withoutNull?.isSome || (own.default.or full.default).any Json.isNull
    || own.nullable == some true || full.nullable == some true
  default := own.default.or full.default

/-- What is rendered for a property with a schema of its own, which `full` describes. -/
def renderProperty (render : Renderer) (node : SchemaNode) (name : Option String)
    (own full : Schema) : Option (Option Fragment) :=
  match full.withoutNull? with
  | some other => render other (if own.ref.isNone then name.map Text.enumChildName else none)
  | none => render node name

section Property

variable {registry : Registry} {document : Json} {render : Renderer} {node : SchemaNode}
  {own full schema other : Schema}

theorem ofProperty_eq_facts (hown : node.toSchema? = some own)
    (hfull : annotated? registry document (some own) = some full) (key : String)
    (name : Option String) (isRequired : Bool) :
    ofProperty render registry document key node name isRequired =
      (renderProperty render node name own full).map
        (Option.map fun fragment => (factsOf key isRequired own full, fragment)) := by
  unfold ofProperty renderProperty factsOf
  dsimp only
  rw [hown, hfull, Option.bind_some]
  cases full.withoutNull? with
  | none => cases render node name <;> rfl
  | some other =>
    dsimp only
    rw [Option.any_some]
    cases render other (if own.ref.isNone then name.map Text.enumChildName else none) <;> rfl

/-- What describes a property is the schema itself, or does not depend on the mark of the
    schema. -/
theorem annotated?_withNullable (registry : Registry) (document : Json) (schema : Schema)
    (nullable : Option Bool) :
    ∃ full handed, annotated? registry document (some schema) = some full ∧
      annotated? registry document (some (schema.withNullable nullable)) =
        some (full.withNullable handed) := by
  unfold annotated?
  rw [Option.bind_some, Option.bind_some, Schema.withNullable_ref]
  cases schema.ref with
  | none => exact ⟨schema, nullable, rfl, rfl⟩
  | some reference =>
    dsimp only
    cases registry.target? reference with
    | some target =>
      refine ⟨target, target.nullable, rfl, ?_⟩
      rw [Schema.withNullable_self]
      rfl
    | none =>
      cases (Reference.resolveNode document reference).bind SchemaNode.toSchema? with
      | some target =>
        refine ⟨target, target.nullable, rfl, ?_⟩
        rw [Schema.withNullable_self]
        rfl
      | none => exact ⟨schema, nullable, rfl, rfl⟩

/-- A property shows `null` just when it is known to be nullable. -/
theorem factsOf_isNullable (hfull : annotated? registry document (some schema) = some full)
    (key : String) (isRequired : Bool) :
    (factsOf key isRequired schema full).isNullable = true ↔
      ShowsNull registry document schema := by
  have hnull : ∀ value : Option Json, value.any Json.isNull = true ↔ value = some .null := by
    intro value
    cases value with
    | none => simp
    | some value => cases value <;> simp [Json.isNull]
  unfold factsOf ShowsNull
  simp only [Bool.or_eq_true, hnull, beq_iff_eq, hfull, Option.some.injEq, exists_eq_left']
  tauto

/-- A property is known to be nullable just when it shows `null`. -/
theorem ofProperty_isNullable_iff (hschema : (SchemaNode.object schema).toSchema? = some schema)
    {key : String} {name : Option String} {isRequired : Bool} {member : PropertyFacts × Fragment}
    (h : ofProperty render registry document key (.object schema) name isRequired =
      some (some member)) :
    member.1.isNullable = true ↔ ShowsNull registry document schema := by
  obtain ⟨full, -, hfull, -⟩ := annotated?_withNullable registry document schema none
  rw [ofProperty_eq_facts hschema hfull] at h
  obtain ⟨fragment, -, h⟩ := Option.map_eq_some_iff.mp h
  obtain ⟨fragment, -, rfl⟩ := Option.map_eq_some_iff.mp h
  exact factsOf_isNullable hfull key isRequired

/-- A property is rendered for a marked schema as it is for the schema, and is nullable. -/
theorem ofProperty_marked (hschema : (SchemaNode.object schema).toSchema? = some schema)
    (hother : (SchemaNode.object other).toSchema? = some (schema.withNullable (some true)))
    (hrender : ∀ name, render (.object other) name = render (.object schema) name) (key : String)
    (name : Option String) (isRequired : Bool) :
    ofProperty render registry document key (.object other) name isRequired =
      (ofProperty render registry document key (.object schema) name isRequired).map
        (Option.map fun member => ({ member.1 with isNullable := true }, member.2)) := by
  obtain ⟨full, handed, hfull, hfull'⟩ :=
    annotated?_withNullable registry document schema (some true)
  rw [ofProperty_eq_facts hschema hfull, ofProperty_eq_facts hother hfull']
  have hrendered : renderProperty render (.object other) name (schema.withNullable (some true))
      (full.withNullable handed) = renderProperty render (.object schema) name schema full := by
    unfold renderProperty
    rw [Schema.withNullable_withoutNull?, Schema.withNullable_ref, hrender]
  have hfacts : factsOf key isRequired (schema.withNullable (some true))
      (full.withNullable handed) =
        { factsOf key isRequired schema full with isNullable := true } := by
    unfold factsOf
    simp [Schema.withNullable, Schema.summary?]
  rw [hrendered, hfacts, Option.map_map]
  cases renderProperty render (.object schema) name schema full with
  | none => rfl
  | some fragment => cases fragment <;> rfl

end Property

end Fragment

/-! ## Roots -/

namespace Registry

section

variable {registry : Registry} {document : Json} {fuel : Nat} {schema : Schema} {name : String}

/-- The entries are the same, but for the mark of a clean schema. -/
def SameButMark (first second : Entry) : Prop :=
  second = first ∨ ∃ schema handed, Schema.Normal schema ∧ first.schema = .object schema ∧
    second = { first with schema := .object (schema.withNullable handed) }

/-- The second registry has the same entries as the first, but for their marks. -/
structure Marked (first second : Registry) : Prop where
  alike : Alike first second
  entry : ∀ name entry, first.get? name = some entry →
    ∃ marked, second.get? name = some marked ∧ SameButMark entry marked

theorem Marked.refl (registry : Registry) : Marked registry registry :=
  ⟨.refl registry, fun _ entry h => ⟨entry, h, Or.inl rfl⟩⟩

/-- The mark of an inserted schema is all that changes with it. -/
theorem marked_insertNew (registry : Registry) (name : String) (hclean : Schema.Normal schema)
    (handed : Option Bool) (isClass isEnum : Bool) :
    Marked (registry.insertNew name ⟨.object schema, isClass, isEnum⟩)
      (registry.insertNew name ⟨.object (schema.withNullable handed), isClass, isEnum⟩) where
  alike := by
    refine ⟨?_, ?_, rfl⟩
    · funext other
      rw [has_eq_isSome, has_eq_isSome, get?_insertNew, get?_insertNew]
      cases registry.get? other with
      | some entry => rfl
      | none => split <;> rfl
    · funext other
      unfold Registry.isEnum
      rw [get?_insertNew, get?_insertNew]
      cases registry.get? other with
      | some entry => rfl
      | none => split <;> rfl
  entry other entry h := by
    rw [get?_insertNew] at h ⊢
    cases hold : registry.get? other with
    | some old =>
      rw [hold] at h
      exact ⟨entry, h, Or.inl rfl⟩
    | none =>
      rw [hold, Option.none_or] at h
      rw [Option.none_or]
      split at h
      · next heq =>
        obtain rfl := Option.some.inj h
        exact ⟨_, if_pos heq, Or.inr ⟨schema, handed, hclean, rfl, rfl⟩⟩
      · cases h

/-- Declarations are the same for entries that are, but for a mark. -/
theorem declare?_marked {first second : Registry} {entry marked : Entry}
    (halike : Alike first second) (h : SameButMark entry marked) (document : Json) (fuel : Nat)
    (spelling : Spelling) (name : String) :
    second.declare? document fuel spelling (name, marked) =
      first.declare? document fuel spelling (name, entry) := by
  rcases h with rfl | ⟨schema, handed, hclean, hentry, rfl⟩
  · unfold declare? fragmentOf
    rw [(Fragment.render_withNullable halike document fuel).1]
  · obtain ⟨stored, isClass, isEnum⟩ := entry
    obtain rfl : stored = .object schema := hentry
    have hmarked : (schema.withNullable handed).cleanup = schema.cleanup.withNullable handed := by
      rw [Schema.cleanup_of_normal hclean,
        Schema.cleanup_of_normal (Schema.normal_withNullable hclean handed)]
    unfold declare? fragmentOf
    dsimp only
    rw [Fragment.ofNode_marked halike hmarked]
    rfl

/-- A walk does not see the mark of a clean schema without a composition. -/
theorem walk_marked {walked : Registry} (hclean : Schema.Normal schema)
    (hallOf : schema.allOf = none)
    (h : walk document fuel registry (.object schema) (some name) = some walked)
    (handed : Option Bool) (isClass isEnum : Bool) :
    ∃ other, walk document fuel registry (.object (schema.withNullable handed)) (some name) =
        some other ∧
      Marked (walked.insertNew name ⟨.object schema, isClass, isEnum⟩)
        (other.insertNew name ⟨.object (schema.withNullable handed), isClass, isEnum⟩) := by
  have hread := SchemaNode.toSchema?_of_normal hclean
  have hmarked := Schema.normal_withNullable hclean handed
  have hread' := SchemaNode.toSchema?_of_normal hmarked
  have hsame : (schema.withNullable handed).visit (some name) = schema.visit (some name) := rfl
  cases fuel with
  | zero => cases h
  | succ fuel =>
    cases hvisit : schema.visit (some name) with
    | positions positions =>
      rw [walk_positions hread hvisit] at h
      rw [walk_positions hread' (hsame.trans hvisit)]
      exact ⟨walked, h, marked_insertNew walked name hclean handed isClass isEnum⟩
    | enumeration =>
      rw [walk_enumeration hread hvisit] at h
      rw [walk_enumeration hread' (hsame.trans hvisit)]
      obtain rfl := Option.some.inj h
      refine ⟨_, rfl, ?_⟩
      -- The walk has put the schema under its name itself.
      dsimp only [Option.elim_some]
      rw [insertNew_of_has (has_insertNew ..), insertNew_of_has (has_insertNew ..)]
      exact marked_insertNew registry name hclean handed false true
    | reference reference =>
      rw [walk_reference hread hvisit] at h
      rw [walk_reference hread' (hsame.trans hvisit)]
      exact ⟨walked, h, marked_insertNew walked name hclean handed isClass isEnum⟩
    | composition =>
      have hsome := allOf_isSome_of_visit hvisit
      rw [hallOf] at hsome
      cases hsome

/-- Registering a schema that was made nullable gives the same registry, but for marks. -/
theorem add_marked {other : Schema} {nullable : Option Bool} {asStruct : Bool} {answer : String}
    {after : Registry} (hclean : Schema.Normal schema)
    (hother : other.cleanup = schema.withNullable nullable)
    (h : registry.add document fuel name (.object schema) asStruct = some (answer, after)) :
    ∃ marked, registry.add document fuel name (.object other) asStruct = some (answer, marked) ∧
      Marked after marked := by
  unfold add at h ⊢
  dsimp only [SchemaNode.cleanup, SchemaNode.object?] at h ⊢
  rw [Schema.cleanup_of_normal hclean] at h
  rw [hother]
  dsimp only [Option.bind_some, Schema.withNullable_ref] at h ⊢
  cases href : schema.ref with
  | some reference =>
    rw [href] at h
    exact ⟨after, h, .refl after⟩
  | none =>
    rw [href] at h
    dsimp only at h ⊢
    by_cases hhas : registry.has name = true
    · rw [if_pos hhas] at h ⊢
      exact ⟨after, h, .refl after⟩
    · rw [if_neg hhas] at h ⊢
      obtain ⟨root, hroot, h⟩ := Option.bind_eq_some_iff.mp h
      obtain ⟨walked, hwalked, h⟩ := Option.bind_eq_some_iff.mp h
      cases h
      obtain ⟨result, handed, rfl, hmarked⟩ :=
        Schema.flattenAllOf?_withNullable hroot nullable
      have hstores : (SchemaNode.object schema).Stores document (.object result) := by
        refine ⟨fuel, ?_⟩
        rw [SchemaNode.cleanup, Schema.cleanup_of_normal hclean]
        exact hroot
      obtain ⟨hresult, hallOf⟩ := hstores.clean
      obtain ⟨last, hlast, hinserted⟩ :=
        walk_marked hresult hallOf hwalked handed (!asStruct) result.isEnumLike
      refine ⟨_, ?_, hinserted⟩
      exact Option.bind_eq_some_iff.mpr ⟨_, hmarked,
        Option.bind_eq_some_iff.mpr ⟨last, hlast, rfl⟩⟩

end

end Registry

/-! ## Positions -/

namespace Fragment

/-- What holds a schema at a position. -/
inductive Slot where
  | property (key : String) (name : Option String) (isRequired : Bool)
  /-- The item of an array with these other keywords. -/
  | item (outer : Schema)
  | tupleMember (outer : Schema) (before after : List SchemaNode)
  /-- The values of a map with these other keywords. -/
  | values (outer : Schema)
  | unionMember (before after : List SchemaNode) (name : Option String)
  /-- The root of a declaration. -/
  | root (name : String) (asStruct : Bool)

/-- Does the position print whether its schema is nullable? -/
def Slot.isProperty : Slot → Bool
  | .property .. => true
  | _ => false

/-- Text of a fragment, if there is one. -/
def spelled (fragment : Option (Option Fragment)) : Option (Option String) :=
  fragment.map (Option.map (·.spell PlainTypes.spelling))

/-- The text that the node gets at the position, in plain type declarations: the line of a
    property, the declaration of a root that is registered, and otherwise the type around it. -/
def Slot.text (registry : Registry) (document : Json) (fuel : Nat) (node : SchemaNode) :
    Slot → Option (Option String) :=
  let render : Renderer := fun node name => ofNode registry document fuel node name .nested
  fun
  | .property key name isRequired =>
    (ofProperty render registry document key node name isRequired).map (Option.map fun member =>
      PlainTypes.property member.1 (member.2.spell PlainTypes.spelling))
  | .item outer => spelled (ofArray render { outer with items := some (.single node) })
  | .tupleMember outer before after =>
    spelled (ofArray render { outer with items := some (.tuple (before ++ node :: after)) })
  | .values outer => spelled (ofRecord render { outer with additionalProperties := some node })
  | .unionMember before after name => spelled (ofUnion render (before ++ node :: after) name)
  | .root name asStruct =>
    (registry.add document fuel name node asStruct).bind fun (_, after) =>
      match after.get? name with
      | some entry => after.declare? document fuel PlainTypes.spelling (name, entry)
      | none => some none

section

variable {registry : Registry} {document : Json} {fuel : Nat} {render : Renderer}
  {schema other : Schema}

/-- A member that looks the same to the choice of members is left out, or keeps its place among the
    ones that are rendered. -/
theorem literalBranches_congr {node marked : SchemaNode}
    (hconstant : Schema.isConstant marked = Schema.isConstant node)
    (hplain : Schema.isPlainPrimitive marked = Schema.isPlainPrimitive node)
    (before after : List SchemaNode) :
    Schema.literalBranches (before ++ marked :: after) =
        Schema.literalBranches (before ++ node :: after) ∨
      ∃ first last, Schema.literalBranches (before ++ node :: after) = first ++ node :: last ∧
        Schema.literalBranches (before ++ marked :: after) = first ++ marked :: last := by
  unfold Schema.literalBranches
  simp only [List.filter_append, List.filter_cons, hconstant]
  cases Schema.isConstant node with
  | true =>
    -- The member is one of the constants, which are rendered either way.
    have hsome : ∀ (first last : List SchemaNode) (constant : SchemaNode),
        (first ++ constant :: last).isEmpty = false := by
      intro first last constant
      cases first <;> rfl
    simp only [if_true, Bool.not_true, Bool.false_eq_true, if_false, hsome]
    split
    · exact Or.inr ⟨_, _, rfl, rfl⟩
    · exact Or.inr ⟨before, after, rfl, rfl⟩
  | false =>
    simp only [if_true, Bool.not_false, Bool.false_eq_true, if_false, List.length_append,
      List.length_cons, List.all_append, List.all_cons, hplain]
    split
    · exact Or.inl rfl
    · exact Or.inr ⟨before, after, rfl, rfl⟩

/-- A member of a union is rendered where it stands among the others. -/
theorem ofUnion_congr {node marked : SchemaNode}
    (hconstant : Schema.isConstant marked = Schema.isConstant node)
    (hplain : Schema.isPlainPrimitive marked = Schema.isPlainPrimitive node)
    (hrender : ∀ name, render marked name = render node name) (before after : List SchemaNode)
    (name : Option String) :
    ofUnion render (before ++ marked :: after) name =
      ofUnion render (before ++ node :: after) name := by
  unfold ofUnion
  rcases literalBranches_congr hconstant hplain before after with heq | ⟨first, last, hnode, hmarked⟩
  · rw [heq]
  · rw [hnode, hmarked, List.mapM_append, List.mapM_append, List.mapM_cons, List.mapM_cons,
      hrender]

/-- At a position that is no property the text is the same for a schema that was made nullable. -/
theorem Slot.text_marked {slot : Slot} {result : Option String} (hslot : slot.isProperty = false)
    (hclean : Schema.Normal schema) (hmade : Schema.MadeNullable schema other)
    (h : slot.text registry document fuel (.object schema) = some result) :
    slot.text registry document fuel (.object other) = some result := by
  have hcleanup : schema.cleanup = schema := Schema.cleanup_of_normal hclean
  have hother : other.cleanup = schema.withNullable (some true) := hmade.cleanup_eq hclean
  have hrender : ∀ name, ofNode registry document fuel (.object other) name .nested =
      ofNode registry document fuel (.object schema) name .nested := fun name =>
    ofNode_marked (.refl registry) (hcleanup.symm ▸ hother) document fuel name .nested
  have hconstant : Schema.isConstant (.object other) = Schema.isConstant (.object schema) := by
    cases hmade <;> rfl
  have hplain : Schema.isPlainPrimitive (.object other) =
      Schema.isPlainPrimitive (.object schema) := by
    have hread : (SchemaNode.object schema).toSchema? = some schema := congrArg some hcleanup
    have hread' : (SchemaNode.object other).toSchema? = some (schema.withNullable (some true)) :=
      congrArg some hother
    unfold Schema.isPlainPrimitive
    rw [hread, hread']
    rfl
  cases slot with
  | property => cases hslot
  | item outer =>
    rw [← h]
    unfold Slot.text ofArray
    dsimp only
    rw [hrender]
  | tupleMember outer before after =>
    rw [← h]
    unfold Slot.text ofArray
    dsimp only
    rw [ofUnion_congr hconstant hplain hrender]
  | values outer =>
    rw [← h]
    unfold Slot.text ofRecord
    dsimp only
    rw [hrender]
  | unionMember before after name =>
    rw [← h]
    unfold Slot.text
    dsimp only
    rw [ofUnion_congr hconstant hplain hrender]
  | root name asStruct =>
    unfold Slot.text at h ⊢
    dsimp only at h ⊢
    obtain ⟨⟨answer, after⟩, hadd, htext⟩ := Option.bind_eq_some_iff.mp h
    obtain ⟨marked, hadd', hmarked⟩ := Registry.add_marked hclean hother hadd
    refine Option.bind_eq_some_iff.mpr ⟨(answer, marked), hadd', ?_⟩
    dsimp only at htext ⊢
    cases hentry : after.get? name with
    | none =>
      have hnone : marked.get? name = none := by
        rw [Registry.get?_eq_none_iff, congrFun hmarked.alike.has name]
        exact Registry.get?_eq_none_iff.mp hentry
      rw [hnone]
      rw [hentry] at htext
      exact htext
    | some entry =>
      obtain ⟨last, hlast, hsame⟩ := hmarked.entry name entry hentry
      rw [hlast]
      rw [hentry] at htext
      exact (Registry.declare?_marked hmarked.alike hsame document fuel _ name).trans htext

end

end Fragment

namespace PlainTypes

/-- The line of a property shows whether the property is nullable. -/
theorem property_nullable_eq_iff (facts : PropertyFacts) (source : String) :
    property { facts with isNullable := true } source = property facts source ↔
      facts.isNullable = true := by
  constructor
  · intro h
    by_contra hnot
    have hlength := congrArg String.length h
    unfold property at hlength
    simp only [String.length_append, if_true] at hlength
    rw [if_neg hnot] at hlength
    have hnull : " | null".length = 7 := by decide
    have hempty : "".length = 0 := by decide
    omega
  · intro h
    obtain ⟨key, description, isOptional, isNullable, default⟩ := facts
    obtain rfl : isNullable = true := h
    rfl

end PlainTypes

namespace Fragment

/-- Making a clean schema nullable changes the text at its position just when the position is a
    property that does not print `null` for the schema already. -/
theorem Slot.text_ne_iff {registry : Registry} {document : Json} {fuel : Nat} {slot : Slot}
    {schema other : Schema} {text : String} (hclean : schema.cleanup = schema)
    (hmade : Schema.MadeNullable schema other)
    (h : slot.text registry document fuel (.object schema) = some (some text)) :
    ∃ changed, slot.text registry document fuel (.object other) = some (some changed) ∧
      (changed ≠ text ↔ slot.isProperty = true ∧ ¬ ShowsNull registry document schema) := by
  have hnormal : Schema.Normal schema := hclean ▸ Schema.normal_cleanup schema
  cases hslot : slot.isProperty with
  | false =>
    exact ⟨text, Slot.text_marked hslot hnormal hmade h, by simp⟩
  | true =>
    cases slot with
    | property key name isRequired =>
      have hschema : (SchemaNode.object schema).toSchema? = some schema :=
        SchemaNode.toSchema?_of_normal hnormal
      have hcleanup : other.cleanup = schema.withNullable (some true) := hmade.cleanup_eq hnormal
      have hother : (SchemaNode.object other).toSchema? = some (schema.withNullable (some true)) :=
        congrArg some hcleanup
      have hrender : ∀ name, ofNode registry document fuel (.object other) name .nested =
          ofNode registry document fuel (.object schema) name .nested := fun name =>
        ofNode_marked (.refl registry) (hclean.symm ▸ hcleanup) document fuel name .nested
      unfold Slot.text at h ⊢
      dsimp only at h ⊢
      obtain ⟨member, hmember, htext⟩ := Option.map_eq_some_iff.mp h
      obtain ⟨⟨facts, fragment⟩, rfl, rfl⟩ := Option.map_eq_some_iff.mp htext
      rw [ofProperty_marked hschema hother hrender, hmember]
      refine ⟨_, rfl, ?_⟩
      rw [ne_eq, PlainTypes.property_nullable_eq_iff, ofProperty_isNullable_iff hschema hmember]
      exact (and_iff_right rfl).symm
    | _ => cases hslot

/-- An array of texts and an array of texts or `null` are the same type. -/
theorem nullable_item_loses_null :
    ∃ schema other, Schema.cleanup schema = schema ∧ Schema.MadeNullable schema other ∧
      other.type = some (.several ["string", "null"]) ∧
      (Slot.item .empty).text .empty .null 4 (.object schema) =
        some (some "ReadonlyArray<string>") ∧
      (Slot.item .empty).text .empty .null 4 (.object other) =
        some (some "ReadonlyArray<string>") := by
  let schema : Schema := { type := some (.single "string") }
  have hclean : schema.cleanup = schema :=
    Schema.cleanup_of_normal (Schema.normal_of_plain rfl rfl rfl nofun)
  have hmade : Schema.MadeNullable schema { type := some (.several ["string", "null"]) } :=
    .type rfl (by decide) (by decide)
  have htext : (Slot.item .empty).text .empty .null 4 (.object schema) =
      some (some "ReadonlyArray<string>") := by decide +kernel
  obtain ⟨changed, hchanged, hne⟩ := Slot.text_ne_iff hclean hmade htext
  have hsame : changed = "ReadonlyArray<string>" := by
    by_contra h
    exact absurd (hne.mp h).1 Bool.false_ne_true
  exact ⟨schema, _, hclean, hmade, rfl, htext, hsame ▸ hchanged⟩

end Fragment
end TypedClient
