/-
  TypedClient.Proofs.Schema.Inheritance

  The properties that a composition hands down.  A schema with an `allOf` list is read in two ways:
  registration cleans it first and flattens what is left of the list, while a member of another
  composition is flattened with its list as it stands.

  Both ways give the same properties, except for a list of a single reference.  Cleaning merges
  such a member into the schema that holds it, and what is left is a reference with keywords beside
  it, which nothing flattens.
-/
import TypedClient.Proofs.Schema.Flatten

namespace TypedClient
namespace Schema

variable {document : Json} {schema stored resolved : Schema} {members : List SchemaNode}

/-! ## Properties of a merged schema -/

/-- The schema that is declared for a property. -/
def property? (schema : Schema) (key : String) : Option SchemaNode :=
  Keyed.get? key (schema.properties.getD [])

@[simp] theorem property?_merge (first second : Schema) (key : String) :
    (merge first second).property? key = (first.property? key).or (second.property? key) := by
  unfold property?
  rw [getD_merge_properties, ← Keyed.get?_union]

theorem property?_congr {first second : Schema} (h : first.properties = second.properties)
    (key : String) : first.property? key = second.property? key := by
  unfold property?
  rw [h]

theorem property?_empty (key : String) : empty.property? key = none := rfl

/-- Two schemas declare the same properties: the same keys, with the same schemas. -/
def SameProperties (first second : Schema) : Prop :=
  ∀ key, first.property? key = second.property? key

/-! ## What is stored, and what is resolved -/

/-- What registration stores for a schema. -/
def Stores (document : Json) (schema stored : Schema) : Prop :=
  SchemaNode.Stores document (.object schema) (.object stored)

/-- What flattening the schema as it stands gives. -/
def Resolves (document : Json) (schema resolved : Schema) : Prop :=
  ∃ fuel, schema.resolveAllOf? document fuel = some resolved

theorem Resolves.flattens (h : Resolves document schema resolved) :
    Flattens document [] schema resolved := h

theorem stores_iff_flattens :
    Stores document schema stored ↔ Flattens document [] schema.cleanup stored := by
  constructor
  · intro h
    obtain ⟨result, hresult, heq⟩ := SchemaNode.stores_object_iff.mp h
    rwa [SchemaNode.object.inj heq]
  · exact fun h => SchemaNode.stores_object_iff.mpr ⟨stored, h, rfl⟩

/-! ## A composition, cleaned -/

theorem settleType_allOf (schema : Schema) : schema.settleType.allOf = schema.allOf :=
  members?_settleType .allOf schema

theorem settleType_anyOf (schema : Schema) : schema.settleType.anyOf = schema.anyOf :=
  members?_settleType .anyOf schema

/-- Once its type is settled and its composition is gone, a schema without unions is clean. -/
theorem normal_settleType (hany : schema.anyOf = none) (hone : schema.oneOf = none) :
    Normal { schema.settleType with allOf := none } :=
  normal_of_plain rfl ((settleType_anyOf schema).trans hany) ((settleType_oneOf schema).trans hone)
    fun _ h => settleType_type h

theorem dropEmptyOneOf_settleType (hone : schema.oneOf = none) :
    schema.settleType.dropEmptyOneOf = schema.settleType := by
  unfold dropEmptyOneOf
  rw [settleType_oneOf, hone]

/-- A composition of one schema object is cleaned to that object merged over the rest. -/
theorem cleanup_of_lone {member : Schema} (hall : schema.allOf = some [.object member])
    (hany : schema.anyOf = none) (hone : schema.oneOf = none) :
    schema.cleanup = merge member.cleanup { schema.settleType with allOf := none } := by
  have hcollapse : collapse Schema.cleanup .allOf schema.settleType =
      merge member.cleanup { schema.settleType with allOf := none } := by
    unfold collapse Composition.members?
    dsimp only
    rw [settleType_allOf, hall]
    rfl
  have hnormal := (normal_cleanup member).merge (normal_settleType hany hone)
  rw [cleanup_eq_cleanupOnce, cleanupOnce, pass, dropEmptyOneOf_settleType hone, hcollapse,
    collapse_of_normal hnormal, collapse_of_normal hnormal]

/-- Any other composition is kept as it is, or dropped when it is the one that admits all. -/
theorem cleanup_of_not_lone (hall : schema.allOf = some members)
    (hlone : ∀ member, members ≠ [.object member]) (hany : schema.anyOf = none)
    (hone : schema.oneOf = none) :
    (members = [.bool true] ∧ schema.cleanup = { schema.settleType with allOf := none }) ∨
      schema.cleanup = schema.settleType := by
  have hnormal := normal_settleType hany hone
  have hunions : ∀ other : Schema, other.anyOf = none → other.oneOf = none →
      collapse Schema.cleanup .oneOf (collapse Schema.cleanup .anyOf other) = other := by
    intro other hother hother'
    simp only [collapse, Composition.members?, hother, hother']
  have hsettled := hunions schema.settleType ((settleType_anyOf schema).trans hany)
    ((settleType_oneOf schema).trans hone)
  rw [cleanup_eq_cleanupOnce, cleanupOnce, pass, dropEmptyOneOf_settleType hone]
  by_cases htrue : members = [.bool true]
  · refine Or.inl ⟨htrue, ?_⟩
    have hcollapse : collapse Schema.cleanup .allOf schema.settleType =
        { schema.settleType with allOf := none } := by
      unfold collapse Composition.members?
      dsimp only
      rw [settleType_allOf, hall, htrue]
      rfl
    rw [hcollapse, collapse_of_normal hnormal, collapse_of_normal hnormal]
  · refine Or.inr ?_
    -- A list that is neither of the two that collapse is left to flattening.
    have hcollapse : collapse Schema.cleanup .allOf schema.settleType = schema.settleType := by
      unfold collapse Composition.members?
      dsimp only
      rw [settleType_allOf, hall]
      split
      · next member heq => exact absurd (Option.some.inj heq) (hlone member)
      · next heq => exact absurd (Option.some.inj heq) htrue
      · rfl
    rw [hcollapse, hsettled]

/-! ## Properties of a flattened composition -/

/-- Flattened schemas with one composition have the same properties above their own. -/
theorem exists_inherited {following : List String} {first second result result' : Schema}
    (h : Flattens document following first result)
    (h' : Flattens document following second result') (hall : first.allOf = second.allOf) :
    ∃ inherited : Schema, ∀ key,
      result.property? key = (inherited.property? key).or (first.property? key) ∧
      result'.property? key = (inherited.property? key).or (second.property? key) := by
  cases hmembers : second.allOf with
  | none =>
    rw [h.of_allOf_eq_none (hall.trans hmembers), h'.of_allOf_eq_none hmembers]
    exact ⟨empty, fun key => ⟨rfl, rfl⟩⟩
  | some members =>
    obtain ⟨contributions, hcontributions, rfl⟩ := h.of_allOf_eq_some (hall.trans hmembers)
    obtain ⟨contributions', hcontributions', rfl⟩ := h'.of_allOf_eq_some hmembers
    -- One list of members has one list of contributions.
    obtain rfl := contributions_unique hcontributions hcontributions'
    refine ⟨(contributions.filterMap id).foldl merge empty, fun key => ⟨?_, ?_⟩⟩
    · rw [property?_merge]
      rfl
    · rw [property?_merge]
      rfl

/-- A composition of one schema object resolves to the properties that its member contributes,
    above those of the schema that holds it. -/
theorem property?_resolved_of_lone {member : Schema} (hall : schema.allOf = some [.object member])
    (h : Resolves document schema resolved) : ∃ contribution,
      Contributes document [] (.object member) contribution ∧ ∀ key,
        resolved.property? key =
          (contribution.bind (·.property? key)).or (schema.property? key) := by
  obtain ⟨contributions, hcontributions, rfl⟩ := h.flattens.of_allOf_eq_some hall
  obtain ⟨contribution, rest, hcontribution, hrest, rfl⟩ :=
    List.forall₂_cons_left_iff.mp hcontributions
  obtain rfl := List.forall₂_nil_left_iff.mp hrest
  refine ⟨contribution, hcontribution, fun key => ?_⟩
  rw [property?_merge]
  congr 1
  cases contribution with
  | none => rfl
  | some part =>
    change (merge empty part).property? key = part.property? key
    rw [property?_merge, property?_empty, Option.none_or]

/-- Its stored form has the properties of the member itself, above those of the schema. -/
theorem property?_stored_of_lone {member siblings : Schema}
    (hall : schema.allOf = some [.object member]) (hany : schema.anyOf = none)
    (hone : schema.oneOf = none) (h : Stores document schema stored)
    (hsiblings : Flattens document [] { member.cleanup with ref := none } siblings)
    (key : String) :
    stored.property? key = (siblings.property? key).or (schema.property? key) := by
  have hstored := stores_iff_flattens.mp h
  rw [cleanup_of_lone hall hany hone] at hstored
  -- The stored composition is the one of the member itself, since the schema's own is gone.
  obtain ⟨inherited, hkey⟩ := exists_inherited hstored hsiblings (by
    rw [merge_allOf]
    exact Option.or_none)
  obtain ⟨hleft, hright⟩ := hkey key
  rw [hleft, hright, property?_merge, Option.or_assoc]
  congr 2
  exact property?_congr (settleType_properties schema) key

/-- A composition that cleaning does not collapse hands the same properties to both. -/
theorem sameProperties_of_not_lone (hall : schema.allOf = some members)
    (hlone : ∀ member, members ≠ [.object member]) (hany : schema.anyOf = none)
    (hone : schema.oneOf = none) (hstored : Stores document schema stored)
    (hresolved : Resolves document schema resolved) : SameProperties stored resolved := by
  have hstored := stores_iff_flattens.mp hstored
  have hsettled := property?_congr (settleType_properties schema)
  intro key
  rcases cleanup_of_not_lone hall hlone hany hone with ⟨rfl, heq⟩ | heq
  · -- The member that admits everything contributes nothing.
    rw [heq] at hstored
    rw [hstored.of_allOf_eq_none rfl]
    obtain ⟨contributions, hcontributions, rfl⟩ := hresolved.flattens.of_allOf_eq_some hall
    have hnothing : List.Forall₂ (Contributes document []) [.bool true] [none] :=
      .cons ⟨1, memberWithin_bool ..⟩ .nil
    obtain rfl := contributions_unique hcontributions hnothing
    change _ = (merge empty _).property? key
    rw [property?_merge, property?_empty, Option.none_or]
    exact hsettled key
  · rw [heq] at hstored
    obtain ⟨inherited, hkey⟩ :=
      exists_inherited hstored hresolved.flattens (settleType_allOf schema)
    obtain ⟨hleft, hright⟩ := hkey key
    rw [hleft, hright, hsettled key]

/-! ## When the two agree -/

/-- The composition of a schema is a single reference, with `siblings` as the flattened keywords
    beside it. -/
def LoneReference (document : Json) (schema : Schema) (reference : String)
    (siblings : Schema) : Prop :=
  ∃ member, schema.allOf = some [.object member] ∧ member.cleanup.ref = some reference ∧
    Flattens document [] { member.cleanup with ref := none } siblings

/-- The single reference leads to a schema object that hands down a property which is declared
    neither beside the reference nor, in the same way, beside the composition. -/
def LosesBase (document : Json) (schema : Schema) : Prop :=
  ∃ reference siblings target base key property, LoneReference document schema reference siblings ∧
    Reference.resolveNode document reference = some (.object target) ∧
    Contributes document [reference] (.object target) (some base) ∧
    base.property? key = some property ∧ siblings.property? key = none ∧
    schema.property? key ≠ some property

/-- The single reference leads to no schema object, and a property beside it is not declared, in
    the same way, beside the composition. -/
def KeepsSiblings (document : Json) (schema : Schema) : Prop :=
  ∃ reference siblings key property, LoneReference document schema reference siblings ∧
    (∀ target, Reference.resolveNode document reference ≠ some (.object target)) ∧
    siblings.property? key = some property ∧ schema.property? key ≠ some property

theorem LoneReference.unique {reference reference' : String} {siblings siblings' : Schema}
    (h : LoneReference document schema reference siblings)
    (h' : LoneReference document schema reference' siblings') :
    reference = reference' ∧ siblings = siblings' := by
  obtain ⟨member, hall, href, hsiblings⟩ := h
  obtain ⟨member', hall', href', hsiblings'⟩ := h'
  rw [hall] at hall'
  cases hall'
  exact ⟨Option.some.inj (href.symm.trans href'), hsiblings.unique hsiblings'⟩

section LoneReference

variable {reference : String} {siblings : Schema}

/-- With a schema object behind the single reference, stored and resolved properties differ just
    when the target hands down one that is lost. -/
theorem sameProperties_iff_of_target {target : Schema} {base : Option Schema}
    (h : LoneReference document schema reference siblings)
    (htarget : Reference.resolveNode document reference = some (.object target))
    (hbase : Contributes document [reference] (.object target) base)
    (hstored : ∀ key,
      stored.property? key = (siblings.property? key).or (schema.property? key))
    (hresolved : ∀ key, resolved.property? key =
      ((some (base.elim siblings (merge siblings))).bind (·.property? key)).or
        (schema.property? key)) :
    SameProperties stored resolved ↔
      ¬ LosesBase document schema ∧ ¬ KeepsSiblings document schema := by
  have hkeeps : ¬ KeepsSiblings document schema := by
    rintro ⟨other, siblings', key, property, hother, hmissing, -⟩
    obtain ⟨rfl, -⟩ := h.unique hother
    exact hmissing target htarget
  rw [and_iff_left hkeeps]
  constructor
  · rintro hsame ⟨other, siblings', target', base', key, property, hother, htarget', hbase', hkey,
      hown, hschema⟩
    obtain ⟨rfl, rfl⟩ := h.unique hother
    obtain rfl : target = target' := by
      rw [htarget] at htarget'
      cases htarget'
      rfl
    obtain rfl := hbase.unique hbase'
    have heq := hsame key
    rw [hstored, hresolved, Option.bind_some, Option.elim, property?_merge, hown, hkey] at heq
    exact hschema heq
  · intro hloses key
    rw [hstored, hresolved, Option.bind_some]
    cases base with
    | none => rfl
    | some base =>
      rw [Option.elim, property?_merge, Option.or_assoc]
      cases hown : siblings.property? key with
      | some property => rfl
      | none =>
        rw [Option.none_or, Option.none_or]
        cases hkey : base.property? key with
        | none => rfl
        | some property =>
          -- The property would be lost, were it not declared beside the composition too.
          by_contra hne
          exact hloses ⟨reference, siblings, target, base, key, property, h, htarget, hbase, hkey,
            hown, hne⟩

/-- With nothing to flatten behind the single reference, they differ just when a property beside
    the reference is kept. -/
theorem sameProperties_iff_of_missing (h : LoneReference document schema reference siblings)
    (hmissing : ∀ target, Reference.resolveNode document reference ≠ some (.object target))
    (hstored : ∀ key,
      stored.property? key = (siblings.property? key).or (schema.property? key))
    (hresolved : ∀ key, resolved.property? key =
      ((none : Option Schema).bind (·.property? key)).or (schema.property? key)) :
    SameProperties stored resolved ↔
      ¬ LosesBase document schema ∧ ¬ KeepsSiblings document schema := by
  have hloses : ¬ LosesBase document schema := by
    rintro ⟨other, siblings', target, base, key, property, hother, htarget, -⟩
    obtain ⟨rfl, -⟩ := h.unique hother
    exact hmissing target htarget
  rw [and_iff_right hloses]
  constructor
  · rintro hsame ⟨other, siblings', key, property, hother, -, hown, hschema⟩
    obtain ⟨rfl, rfl⟩ := h.unique hother
    have heq := hsame key
    rw [hstored, hresolved, hown, Option.bind_none, Option.none_or] at heq
    exact hschema heq.symm
  · intro hkeeps key
    rw [hstored, hresolved, Option.bind_none, Option.none_or]
    cases hown : siblings.property? key with
    | none => rfl
    | some property =>
      by_contra hne
      exact hkeeps ⟨reference, siblings, key, property, h, hmissing, hown, Ne.symm hne⟩

end LoneReference

/-- The stored and the resolved composition of a schema without unions declare the same
    properties, unless the composition is a single reference whose target hands down a property of
    its own, or that leads to no schema object and has properties beside it. -/
theorem stored_properties_eq_resolved_iff (document : Json) (schema : Schema)
    (hall : schema.allOf.isSome) (hany : schema.anyOf = none) (hone : schema.oneOf = none) :
    (∃ stored resolved, Stores document schema stored ∧ Resolves document schema resolved) ∧
    ∀ stored resolved, Stores document schema stored → Resolves document schema resolved →
      (SameProperties stored resolved ↔
        ¬ LosesBase document schema ∧ ¬ KeepsSiblings document schema) := by
  obtain ⟨members, hall⟩ := Option.isSome_iff_exists.mp hall
  constructor
  · obtain ⟨stored, hstored⟩ := exists_flattens document [] schema.cleanup
    obtain ⟨resolved, hresolved⟩ := exists_flattens document [] schema
    exact ⟨stored, resolved, stores_iff_flattens.mpr hstored, hresolved⟩
  intro stored resolved hstored hresolved
  by_cases hlone : ∃ member, members = [.object member]
  · obtain ⟨member, rfl⟩ := hlone
    obtain ⟨contribution, ⟨fuel, hcontribution⟩, hresolved⟩ :=
      property?_resolved_of_lone hall hresolved
    obtain ⟨siblings, hsiblings⟩ :=
      exists_flattens document [] { member.cleanup with ref := none }
    have hstored := property?_stored_of_lone hall hany hone hstored hsiblings
    obtain ⟨less, -, h⟩ := memberWithin_cases hcontribution
    rcases h with ⟨href, own, rfl, hown⟩ | ⟨reference, href, h⟩
    · -- An inline member contributes its own keywords, and cleaning merges the same ones.
      obtain rfl := hsiblings.unique ⟨less, hown⟩
      have hnone : ∀ reference siblings, ¬ LoneReference document schema reference siblings := by
        rintro reference siblings ⟨other, hother, hreference, -⟩
        rw [hall] at hother
        cases hother
        rw [href] at hreference
        cases hreference
      refine iff_of_true (fun key => (hstored key).trans (hresolved key).symm) ⟨?_, ?_⟩
      · rintro ⟨reference, siblings, -, -, -, -, h, -⟩
        exact hnone reference siblings h
      · rintro ⟨reference, siblings, -, -, h, -⟩
        exact hnone reference siblings h
    · -- A reference contributes its target, which cleaning leaves behind the reference.
      have hreference : LoneReference document schema reference siblings :=
        ⟨member, hall, href, hsiblings⟩
      rcases h with ⟨-, target, own, base, htarget, hown, hbase, rfl⟩ | ⟨rfl, h⟩
      · obtain rfl := hsiblings.unique ⟨less, hown⟩
        exact sameProperties_iff_of_target hreference htarget ⟨less, hbase⟩ hstored hresolved
      · have hmissing : ∀ target, Reference.resolveNode document reference ≠
            some (.object target) := by
          rcases h with h | h
          -- No reference is being followed at the top of the schema.
          · cases h
          · exact h
        exact sameProperties_iff_of_missing hreference hmissing hstored hresolved
  · -- Any other list reaches flattening whole, as it does when it is resolved.
    have hlone : ∀ member, members ≠ [.object member] := fun member h => hlone ⟨member, h⟩
    have hnone : ∀ reference siblings, ¬ LoneReference document schema reference siblings := by
      rintro reference siblings ⟨member, hmember, -⟩
      exact hlone member (Option.some.inj (hall.symm.trans hmember))
    refine iff_of_true (sameProperties_of_not_lone hall hlone hany hone hstored hresolved) ⟨?_, ?_⟩
    · rintro ⟨reference, siblings, -, -, -, -, h, -⟩
      exact hnone reference siblings h
    · rintro ⟨reference, siblings, -, -, h, -⟩
      exact hnone reference siblings h

/-! ### A base schema that is lost -/

/-- The schema of an animal, which has a name. -/
def animal : Schema where
  properties := some [("name", .object { type := some (.single "string") })]

/-- A document with the schema of an animal. -/
def animals : Json :=
  .obj [("Animal", .obj [("properties", .obj [("name", .obj [("type", .str "string")])])])]

/-- A dog inherits from an animal, and has an owner. -/
def dog : Schema where
  allOf := some [.object { ref := some "#/Animal" }]
  properties := some [("owner", .object { type := some (.single "string") })]

theorem resolveNode_animal :
    Reference.resolveNode animals "#/Animal" = some (.object animal) := by
  have hinternal : Reference.isInternal "#/Animal" = true := by decide +kernel
  have htokens : Reference.tokens "#/Animal" = ["Animal"] := by decide +kernel
  unfold Reference.resolveNode Reference.resolve
  rw [if_pos hinternal, htokens]
  rfl

theorem cleanup_animal : animal.cleanup = animal :=
  cleanup_of_normal (normal_of_plain rfl rfl rfl nofun)

theorem cleanup_animal_reference :
    ({ ref := some "#/Animal" } : Schema).cleanup = { ref := some "#/Animal" } :=
  cleanup_of_normal (normal_of_plain rfl rfl rfl nofun)

/-- A dog is stored without the name that it inherits. -/
theorem dog_stored_without_name : (dog.allOf.isSome ∧ dog.anyOf = none ∧ dog.oneOf = none) ∧
    ∃ stored resolved, Stores animals dog stored ∧ Resolves animals dog resolved ∧
      ¬ SameProperties stored resolved := by
  have hsiblings : LoneReference animals dog "#/Animal" {} := by
    refine ⟨{ ref := some "#/Animal" }, rfl, ?_, 1, ?_⟩
    · rw [cleanup_animal_reference]
    · rw [cleanup_animal_reference]
      rfl
  have hbase : Contributes animals ["#/Animal"] (.object animal) (some animal) := by
    refine ⟨2, ?_⟩
    rw [memberWithin_object, cleanup_animal]
    rfl
  have hloses : LosesBase animals dog :=
    ⟨"#/Animal", {}, animal, animal, "name", .object { type := some (.single "string") }, hsiblings,
      resolveNode_animal, hbase, rfl, rfl, fun h => by cases h⟩
  obtain ⟨⟨stored, resolved, hstored, hresolved⟩, hiff⟩ :=
    stored_properties_eq_resolved_iff animals dog rfl rfl rfl
  exact ⟨⟨rfl, rfl, rfl⟩, stored, resolved, hstored, hresolved,
    fun hsame => ((hiff stored resolved hstored hresolved).mp hsame).1 hloses⟩

end Schema
end TypedClient
