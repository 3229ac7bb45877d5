/-
  TypedClient.Proofs.Schema.Passes

  How many passes cleaning takes.  Passes are made over a schema until nothing changes, up to a
  bound, and every lone member met on the way is cleaned in passes of its own, under the same bound.

  One pass is enough at each of these places, however deep lone members nest: what it leaves is in
  normal form, and no further pass changes that.  So it does not matter where passes stop.
-/
import TypedClient.Proofs.Schema.Normal

namespace TypedClient
namespace Schema

/-! ## Any number of passes -/

/-- Cleans a schema whose lone members nest less than `depth` deep. Over every schema that is
    cleaned on the way one pass is made, and `more` passes after it. -/
def cleanupPassing (more : Schema → Nat) : Nat → Schema → Schema
  | 0, schema => schema
  | depth + 1, schema =>
    Nat.repeat (pass (cleanupPassing more depth)) (more schema + 1) schema

/-- The number of passes does not count, for the schema and for all that is cleaned on the way. -/
theorem cleanupPassing_eq_cleanup (more : Schema → Nat) (depth : Nat) :
    ∀ schema : Schema, schema.loneDepth < depth →
      cleanupPassing more depth schema = schema.cleanup := by
  induction depth with
  | zero => intro schema h; omega
  | succ depth ih =>
    intro schema hdepth
    have hmember : ∀ composition member, schema.lone? composition = some member →
        cleanupPassing more depth member = member.cleanup := by
      intro composition member hlone
      have hlt := loneDepth_lt_of_lone hlone
      exact ih member (by omega)
    have hclean : ∀ composition member, schema.lone? composition = some member →
        Normal (cleanupPassing more depth member) := by
      intro composition member hlone
      rw [hmember composition member hlone]
      exact normal_cleanup member
    calc cleanupPassing more (depth + 1) schema
        = Nat.repeat (pass (cleanupPassing more depth)) (more schema + 1) schema := rfl
      _ = pass (cleanupPassing more depth) schema := repeat_pass hclean (more schema)
      _ = schema.cleanupOnce := pass_congr hclean hmember
      _ = schema.cleanup := (cleanup_eq_cleanupOnce schema).symm

/-- Cleaning reaches the normal form. What it leaves is a fixed point of a further pass and of
    cleaning, and does not depend on how many passes are made; its type lists have two names or
    more, none of them `null`, it has no empty `oneOf`, and a composition of one member is the one
    that admits nothing. -/
theorem cleanup_normalizes (schema : Schema) :
    schema.cleanup.cleanupOnce = schema.cleanup ∧ schema.cleanup.cleanup = schema.cleanup ∧
    (∀ more deeper, cleanupPassing more (schema.loneDepth + 1 + deeper) schema = schema.cleanup) ∧
    (∀ names, schema.cleanup.type = some (.several names) → 2 ≤ names.length ∧ "null" ∉ names) ∧
    schema.cleanup.oneOf ≠ some [] ∧
    ∀ (composition : Composition) (node : SchemaNode),
      composition.members? schema.cleanup = some [node] → node = .bool false := by
  have hnormal : Normal schema.cleanup := normal_cleanup schema
  refine ⟨pass_of_normal hnormal, cleanup_of_normal hnormal, ?_, hnormal.type, hnormal.oneOf, ?_⟩
  · intro more deeper
    exact cleanupPassing_eq_cleanup more _ schema (by omega)
  · intro composition node hlone
    exact hnormal.lone composition List.not_mem_nil node hlone

/-! ## Lone compositions around a schema -/

/-- A schema with nothing but a composition of one member. -/
def wrapped : Composition → Schema → Schema
  | .allOf, schema => { allOf := some [.object schema] }
  | .anyOf, schema => { anyOf := some [.object schema] }
  | .oneOf, schema => { oneOf := some [.object schema] }

/-- A lone composition around a schema is taken off. -/
theorem cleanup_wrapped (composition : Composition) (schema : Schema) :
    (wrapped composition schema).cleanup = schema.cleanup := by
  have hnormal := normal_cleanup schema
  rw [cleanup_eq_cleanupOnce, cleanupOnce, pass]
  have hsettled : (wrapped composition schema).settleType.dropEmptyOneOf =
      wrapped composition schema := by
    cases composition <;> rfl
  have hcollapsed : collapse cleanup composition (wrapped composition schema) = schema.cleanup := by
    cases composition <;> exact merge_empty_right _
  rw [hsettled]
  -- Steps of the pass before the composition's own find nothing, and those after it a clean schema.
  cases composition with
  | allOf => rw [hcollapsed, collapse_of_normal hnormal, collapse_of_normal hnormal]
  | anyOf =>
    have hother : collapse cleanup .allOf (wrapped .anyOf schema) = wrapped .anyOf schema := rfl
    rw [hother, hcollapsed, collapse_of_normal hnormal]
  | oneOf =>
    have hother : collapse cleanup .anyOf (collapse cleanup .allOf (wrapped .oneOf schema)) =
        wrapped .oneOf schema := rfl
    rw [hother, hcollapsed]

/-- So is any number of them, also where there are more of them than passes. -/
theorem cleanup_foldr_wrapped (compositions : List Composition) (schema : Schema) :
    (compositions.foldr wrapped schema).cleanup = schema.cleanup := by
  induction compositions with
  | nil => rfl
  | cons composition rest ih => rw [List.foldr_cons, cleanup_wrapped, ih]

end Schema
end TypedClient
