/-
  TypedClient.Proofs.Schema.Resolution

  What resolving a composition leaves.  It ends on every document, also where compositions refer to
  each other, and whatever is resolved has no composition left.  Its reference is the one that the
  schema has itself: a member gives up its reference before it contributes anything, and so does
  the target of that reference, and every schema on the way.
-/
import TypedClient.Proofs.Schema.Inheritance

namespace TypedClient
namespace Schema

variable {document : Json} {following : List String} {schema result : Schema}

theorem ref_foldl_merge {parts : List Schema} {start : Schema}
    (hparts : ∀ part ∈ parts, part.ref = none) : (parts.foldl merge start).ref = start.ref := by
  induction parts generalizing start with
  | nil => rfl
  | cons part rest ih =>
    rw [List.foldl_cons, ih fun other hother => hparts other (List.mem_cons_of_mem _ hother),
      merge_ref, hparts part (List.mem_cons_self ..), Option.or_none]

/-- Nothing is composed in what flattening answers, and it refers to where the schema itself refers
    to. What a member contributes refers to nothing. -/
theorem keptByFlattening_resolved (document : Json) : KeptByFlattening document
    (fun _ schema result => result.allOf = none ∧ result.ref = schema.ref)
    (fun _ _ contribution => ∀ part, contribution = some part →
      part.allOf = none ∧ part.ref = none) where
  plain _ _ hallOf := ⟨hallOf, rfl⟩
  composed _ schema members contributions _ hcontributions := by
    have hparts : ∀ part ∈ contributions.filterMap id, part.allOf = none ∧ part.ref = none := by
      intro part hpart
      obtain ⟨_, -, hresolved⟩ := exists_member_of_part hcontributions hpart
      exact hresolved part rfl
    constructor
    · rw [merge_allOf, allOf_foldl_merge rfl fun part h => (hparts part h).1]
      rfl
    · rw [merge_ref, ref_foldl_merge fun part h => (hparts part h).2]
      rfl
  bool _ _ _ h := by cases h
  inline _ _ _ _ hsiblings part hpart := by
    cases hpart
    exact hsiblings
  target _ _ _ _ siblings base _ _ _ hsiblings hbase part hpart := by
    obtain ⟨hallOf, href⟩ := hsiblings
    cases hpart
    cases base with
    | none => exact ⟨hallOf, href⟩
    | some base =>
      obtain ⟨hbaseAllOf, hbaseRef⟩ := hbase base rfl
      constructor
      · rw [Option.elim, merge_allOf, hallOf, hbaseAllOf]
        rfl
      · rw [Option.elim, merge_ref, href, hbaseRef]
        rfl
  skipped _ _ _ _ _ _ h := by cases h

/-- What a schema is flattened to has no composition and the reference of the schema. -/
theorem Flattens.resolved (h : Flattens document following schema result) :
    result.allOf = none ∧ result.ref = schema.ref :=
  (keptByFlattening_resolved document).flattens h

/-- Resolving the composition of a schema ends, with one answer for every sufficient fuel. No
    composition is left in it, and of all the references that are met only the schema's own is. -/
theorem resolveAllOf_ends_flat (document : Json) (schema : Schema) :
    ∃ fuel resolved,
      (∀ more, schema.resolveAllOf? document (fuel + more) = some resolved) ∧
      resolved.allOf = none ∧ resolved.ref = schema.ref := by
  obtain ⟨resolved, fuel, h⟩ := exists_flattens document [] schema
  have hmore : ∀ more, schema.resolveAllOf? document (fuel + more) = some resolved := fun more =>
    flattenWithin_refines (Nat.le_add_right fuel more) [] schema resolved h
  have hflattens : Flattens document [] schema resolved := ⟨fuel, h⟩
  obtain ⟨hallOf, href⟩ := hflattens.resolved
  exact ⟨fuel, resolved, hmore, hallOf, href⟩

end Schema
end TypedClient
