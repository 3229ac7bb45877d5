/-
  TypedClient.Proofs.Schema.Nullable

  The keyword that marks a schema as nullable.  A type list with `null` is cleaned to the mark, and
  nothing else in a schema depends on it: flattening a composition hands it through, and the rest
  of the outcome stays the same.
-/
import TypedClient.Proofs.Schema.Flatten

namespace TypedClient

/-- The names of a type keyword. -/
def TypeNames.names : TypeNames → List String
  | .single name => [name]
  | .several names => names

namespace Schema

/-- The schema with another `nullable` keyword. -/
def withNullable (schema : Schema) (nullable : Option Bool) : Schema :=
  { schema with nullable := nullable }

section

variable {document : Json} {schema other : Schema} {nullable : Option Bool}

theorem withNullable_self (schema : Schema) : schema.withNullable schema.nullable = schema := by
  cases schema
  rfl

theorem members?_withNullable (composition : Composition) (schema : Schema)
    (nullable : Option Bool) :
    composition.members? (schema.withNullable nullable) = composition.members? schema := by
  cases composition <;> rfl

/-- The normal form does not depend on the keyword. -/
theorem normal_withNullable (h : Normal schema) (nullable : Option Bool) :
    Normal (schema.withNullable nullable) where
  lone composition hpending node hmembers := by
    rw [members?_withNullable] at hmembers
    exact h.lone composition hpending node hmembers
  oneOf := h.oneOf
  type := h.type

/-! ## Flattening -/

theorem merge_withNullable (first second : Schema) (nullable : Option Bool) :
    merge first (second.withNullable nullable) =
      (merge first second).withNullable (first.nullable.or nullable) := by
  have hanyOf : (second.withNullable nullable).anyOf = second.anyOf := rfl
  unfold merge
  change (if first.properties.isSome || second.properties.isSome then _ else _) = _
  split
  · rfl
  · rw [hanyOf]
    cases first.anyOf <;> cases second.anyOf <;> rfl

/-- Another mark flattens to the same schema, but for its mark. -/
theorem flattenWithin_withNullable (document : Json) (fuel : Nat) (following : List String)
    (schema : Schema) (nullable : Option Bool) :
    ∃ handed, flattenWithin document fuel following (schema.withNullable nullable) =
      (flattenWithin document fuel following schema).map (·.withNullable handed) := by
  cases fuel with
  | zero => exact ⟨nullable, rfl⟩
  | succ fuel =>
    have hallOf : (schema.withNullable nullable).allOf = schema.allOf := rfl
    rw [flattenWithin_succ, flattenWithin_succ, hallOf]
    cases schema.allOf with
    | none => exact ⟨nullable, rfl⟩
    | some members =>
      dsimp only
      cases members.mapM (memberWithin document fuel following) with
      | none => exact ⟨nullable, rfl⟩
      | some contributions =>
        -- A mark of the members wins over the one of the schema itself.
        have hmerge := merge_withNullable ((contributions.filterMap id).foldl merge empty)
          { schema with allOf := none } nullable
        exact ⟨_, congrArg some hmerge⟩

theorem flattenAllOf?_withNullable {fuel : Nat} {stored : SchemaNode}
    (h : (SchemaNode.object schema).flattenAllOf? document fuel = some stored)
    (nullable : Option Bool) :
    ∃ result handed, stored = .object result ∧
      (SchemaNode.object (schema.withNullable nullable)).flattenAllOf? document fuel =
        some (.object (result.withNullable handed)) := by
  have hallOf : (schema.withNullable nullable).allOf = schema.allOf := rfl
  unfold SchemaNode.flattenAllOf? at h ⊢
  dsimp only at h ⊢
  rw [hallOf]
  by_cases hsome : schema.allOf.isSome = true
  · rw [if_pos hsome] at h ⊢
    obtain ⟨result, hresult, rfl⟩ := Option.map_eq_some_iff.mp h
    obtain ⟨handed, hhanded⟩ := flattenWithin_withNullable document fuel [] schema nullable
    refine ⟨result, handed, rfl, ?_⟩
    unfold resolveAllOf? at hresult ⊢
    rw [hhanded, hresult]
    rfl
  · rw [if_neg hsome] at h ⊢
    exact ⟨schema, nullable, (Option.some.inj h).symm, rfl⟩

/-! ## Marking -/

/-- The schema made nullable: by the keyword, or by `null` among the names of its type. -/
inductive MadeNullable (schema : Schema) : Schema → Prop where
  | keyword : MadeNullable schema { schema with nullable := some true }
  | type {type : TypeNames} {names : List String} (declared : schema.type = some type)
      (null : "null" ∈ names) (rest : names.filter (· != "null") = type.names) :
      MadeNullable schema { schema with type := some (.several names) }

/-- What is left of a type list without `null` is the type that it was made from. -/
theorem withoutNull_eq {type : TypeNames} {names : List String}
    (hrest : names.filter (· != "null") = type.names)
    (htype : ∀ list, type = .several list → 2 ≤ list.length) :
    withoutNull names = some type := by
  unfold withoutNull
  rw [hrest]
  cases type with
  | single name => rfl
  | several list =>
    match list, htype list rfl with
    | first :: second :: rest, _ => rfl

/-- A clean schema that was made nullable is cleaned to itself with the mark. -/
theorem MadeNullable.cleanup_eq (h : MadeNullable schema other) (hclean : Normal schema) :
    other.cleanup = schema.withNullable (some true) := by
  have hmarked : Normal (schema.withNullable (some true)) := normal_withNullable hclean _
  cases h with
  | keyword => exact cleanup_of_normal hmarked
  | @type type names declared null rest =>
    have hwithout : withoutNull names = schema.type := by
      rw [declared]
      refine withoutNull_eq rest fun list hlist => ?_
      exact (hclean.type list (hlist ▸ declared)).1
    have hname : schema.typeName? ≠ some "null" := by
      intro hnull
      have hsingle : schema.type = some (.single "null") := by
        unfold typeName? at hnull
        split at hnull
        · next name hname =>
          obtain rfl := Option.some.inj hnull
          exact hname
        · cases hnull
      obtain rfl := Option.some.inj (declared.symm.trans hsingle)
      have hmem : "null" ∈ names.filter (· != "null") := by
        rw [rest]
        exact List.mem_singleton.mpr rfl
      simp at hmem
    have hsettled : settleType { schema with type := some (.several names) } =
        schema.withNullable (some true) := by
      have hcontains : names.contains "null" = true := by simpa using null
      have hleft : (true && schema.typeName? != some "null") = true := by simpa using hname
      unfold settleType
      dsimp only
      rw [hwithout, hcontains]
      exact if_pos hleft
    rw [cleanup_eq_cleanupOnce, cleanupOnce, pass, hsettled, dropEmptyOneOf_of_normal hmarked,
      collapse_of_normal hmarked, collapse_of_normal hmarked, collapse_of_normal hmarked]

end

end Schema
end TypedClient
