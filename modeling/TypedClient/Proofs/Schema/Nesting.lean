/-
  TypedClient.Proofs.Schema.Nesting

  How deep the members of compositions nest, and which references they hold. Both are bounded for
  a schema, and for all schemas of a document together; cleaning keeps the bounds.
-/
import Mathlib.Data.Finset.Option
import TypedClient.Proofs.Keyed
import TypedClient.Proofs.Schema.Normal
import TypedClient.Reference
import TypedClient.Schema.AllOf

namespace TypedClient

/-! ## Values of a document -/

namespace Json

mutual
/-- The values inside a value, itself included. -/
def parts : Json → List Json
  | .arr items => .arr items :: partsOfItems items
  | .obj fields => .obj fields :: partsOfFields fields
  | value => [value]

/-- The values inside a list of items. -/
def partsOfItems : List Json → List Json
  | [] => []
  | item :: rest => item.parts ++ partsOfItems rest

/-- The values inside a list of fields. -/
def partsOfFields : List (String × Json) → List Json
  | [] => []
  | (_, value) :: rest => value.parts ++ partsOfFields rest
end

theorem self_mem_parts (value : Json) : value ∈ value.parts := by
  cases value <;> simp [parts]

theorem parts_subset_partsOfItems {items : List Json} {item : Json} (h : item ∈ items) :
    item.parts ⊆ partsOfItems items := by
  induction items with
  | nil => cases h
  | cons first rest ih =>
    rw [partsOfItems]
    rcases List.mem_cons.mp h with rfl | h
    · exact List.subset_append_left ..
    · exact fun part hpart => List.mem_append_right _ (ih h hpart)

theorem parts_subset_partsOfFields {fields : List (String × Json)} {field : String × Json}
    (h : field ∈ fields) : field.2.parts ⊆ partsOfFields fields := by
  induction fields with
  | nil => cases h
  | cons first rest ih =>
    rw [partsOfFields]
    rcases List.mem_cons.mp h with rfl | h
    · exact List.subset_append_left ..
    · exact fun part hpart => List.mem_append_right _ (ih h hpart)

end Json

namespace Reference

/-- One step leads to a value whose parts are parts of the value it starts from. -/
theorem parts_subset_of_step {value next : Json} {token : String}
    (h : step value token = some next) : next.parts ⊆ value.parts := by
  cases value with
  | obj fields =>
    have hmem := Keyed.mem_of_get? (show Keyed.get? token fields = some next from h)
    rw [Json.parts]
    exact fun part hpart =>
      List.mem_cons_of_mem _ (Json.parts_subset_partsOfFields hmem hpart)
  | arr items =>
    obtain ⟨index, -, hindex⟩ := Option.bind_eq_some_iff.mp
      (show (position? token).bind (items[·]?) = some next from h)
    rw [Json.parts]
    exact fun part hpart =>
      List.mem_cons_of_mem _ (Json.parts_subset_partsOfItems (List.mem_of_getElem? hindex) hpart)
  | null => cases h
  | bool _ => cases h
  | num _ => cases h
  | str _ => cases h

theorem parts_subset_of_follow {value target : Json} {path : List String}
    (h : follow value path = some target) : target.parts ⊆ value.parts := by
  induction path generalizing value with
  | nil =>
    obtain rfl : value = target := Option.some.inj h
    exact List.Subset.refl _
  | cons token rest ih =>
    obtain ⟨next, hnext, hrest⟩ := Option.bind_eq_some_iff.mp h
    exact List.Subset.trans (ih hrest) (parts_subset_of_step hnext)

/-- Only a reference into the document leads somewhere. -/
theorem isInternal_of_resolveNode {document : Json} {target : SchemaNode} {reference : String}
    (h : resolveNode document reference = some target) : isInternal reference = true := by
  obtain ⟨value, hvalue, -⟩ := Option.map_eq_some_iff.mp h
  unfold resolve at hvalue
  split at hvalue
  · next hinternal => exact hinternal
  · cases hvalue

/-- A reference that leads to a value leads to a node. -/
theorem exists_resolveNode {document : Json} {reference : String}
    (h : (resolve document reference).isSome = true) :
    ∃ target, resolveNode document reference = some target := by
  obtain ⟨value, hvalue⟩ := Option.isSome_iff_exists.mp h
  exact ⟨.ofJson value, by rw [resolveNode, hvalue, Option.map_some]⟩

/-- A reference leads to a value whose parts are parts of the document. -/
theorem parts_subset_of_resolve {document target : Json} {reference : String}
    (h : resolve document reference = some target) : target.parts ⊆ document.parts := by
  unfold resolve at h
  split at h
  · exact parts_subset_of_follow h
  · cases h

/-- A reference leads to a value inside the document. -/
theorem mem_parts_of_resolve {document target : Json} {reference : String}
    (h : resolve document reference = some target) : target ∈ document.parts :=
  parts_subset_of_resolve h target.self_mem_parts

end Reference

namespace Schema

/-! ## Nesting of compositions -/

/-- The members of compositions nest less than `depth` deep, and every reference that the schema
    or a member has is one of `references`. -/
inductive Nests (references : Finset String) : Nat → Schema → Prop where
  | intro {depth : Nat} {schema : Schema}
      (ref : ∀ reference, schema.ref = some reference → reference ∈ references)
      (members : ∀ (composition : Composition) (nodes : List SchemaNode) (member : Schema),
        composition.members? schema = some nodes → SchemaNode.object member ∈ nodes →
          Nests references depth member) :
      Nests references (depth + 1) schema

section

variable {references more : Finset String} {depth deeper : Nat} {schema first second : Schema}

theorem Nests.ref (h : Nests references depth schema) :
    ∀ reference, schema.ref = some reference → reference ∈ references := by
  cases h with
  | intro ref _ => exact ref

theorem Nests.members (h : Nests references (depth + 1) schema) :
    ∀ (composition : Composition) (nodes : List SchemaNode) (member : Schema),
      composition.members? schema = some nodes → SchemaNode.object member ∈ nodes →
        Nests references depth member := by
  cases h with
  | intro _ members => exact members

/-- Wider bounds hold too. -/
theorem Nests.mono (h : Nests references depth schema) (hreferences : references ⊆ more)
    (hdepth : depth ≤ deeper) : Nests more deeper schema := by
  induction h generalizing deeper with
  | @intro depth schema ref members ih =>
    -- A schema that nests has some depth, so that the wider bound is a successor too.
    obtain ⟨deeper, rfl⟩ : ∃ less, deeper = less + 1 := ⟨deeper - 1, by omega⟩
    exact .intro (fun reference href => hreferences (ref reference href))
      fun composition nodes member hnodes hmember =>
        ih composition nodes member hnodes hmember (by omega)

/-! ## Cleaning -/

theorem Nests.withoutRef (h : Nests references (depth + 1) schema) :
    Nests references (depth + 1) { schema with ref := none } :=
  .intro (fun _ href => by cases href) fun composition nodes member hnodes => by
    cases composition with
    | allOf => exact h.members .allOf nodes member hnodes
    | anyOf => exact h.members .anyOf nodes member hnodes
    | oneOf => exact h.members .oneOf nodes member hnodes

theorem Nests.merge (hfirst : Nests references (depth + 1) first)
    (hsecond : Nests references (depth + 1) second) :
    Nests references (depth + 1) (Schema.merge first second) := by
  refine .intro ?_ ?_
  · intro reference href
    rw [merge_ref] at href
    rcases Option.or_eq_some_iff.mp href with href | ⟨-, href⟩
    · exact hfirst.ref reference href
    · exact hsecond.ref reference href
  · intro composition nodes member hnodes hmember
    rcases members?_merge_cases first second hnodes with h | ⟨-, h⟩ | ⟨left, right, hl, hr, rfl⟩
    · exact hfirst.members composition nodes member h hmember
    · exact hsecond.members composition nodes member h hmember
    · rcases List.mem_append.mp hmember with hmember | hmember
      · exact hfirst.members composition left member hl hmember
      · exact hsecond.members composition right member hr hmember

theorem Nests.remove (h : Nests references (depth + 1) schema) (removed : Composition) :
    Nests references (depth + 1) (removed.remove schema) := by
  refine .intro (fun reference href => h.ref reference ?_) ?_
  · cases removed <;> exact href
  · intro composition nodes member hnodes
    refine h.members composition nodes member ?_
    cases removed <;> cases composition <;> first | exact hnodes | cases hnodes

theorem Nests.settleType (h : Nests references (depth + 1) schema) :
    Nests references (depth + 1) schema.settleType := by
  refine .intro (fun reference href => h.ref reference ?_) ?_
  · rwa [settleType_ref] at href
  · intro composition nodes member hnodes
    rw [members?_settleType] at hnodes
    exact h.members composition nodes member hnodes

theorem nests_keptByCleaning (references : Finset String) (depth : Nat) :
    KeptByCleaning (Nests references (depth + 1)) where
  merge _ _ hfirst hsecond := hfirst.merge hsecond
  remove composition _ h := h.remove composition
  settleType _ h := h.settleType
  lone composition _ member h hmembers :=
    (h.members composition _ member hmembers (List.mem_cons_self ..)).mono
      (Finset.Subset.refl _) (Nat.le_succ depth)

/-- Cleaning nests nothing deeper and adds no reference. -/
theorem Nests.cleanup (h : Nests references depth schema) :
    Nests references depth schema.cleanup := by
  cases depth with
  | zero => cases h
  | succ depth => exact (nests_keptByCleaning references depth).cleanup h

end

/-! ## Bounds -/

/-- Bounds for each of some schemas have bounds in common. -/
theorem exists_nests_forall {α : Type} (schemaOf : α → Option Schema) (items : List α)
    (h : ∀ item ∈ items, ∀ schema, schemaOf item = some schema →
      ∃ references depth, Nests references depth schema) :
    ∃ references depth, ∀ item ∈ items, ∀ schema, schemaOf item = some schema →
      Nests references depth schema := by
  induction items with
  | nil => exact ⟨∅, 0, fun _ h => by cases h⟩
  | cons item rest ih =>
    obtain ⟨references, depth, hrest⟩ :=
      ih fun other hother => h other (List.mem_cons_of_mem _ hother)
    obtain ⟨own, deep, hown⟩ : ∃ own deep, ∀ schema, schemaOf item = some schema →
        Nests own deep schema := by
      cases hitem : schemaOf item with
      | none => exact ⟨∅, 0, fun _ h => by cases h⟩
      | some schema =>
        obtain ⟨own, deep, hown⟩ := h item (List.mem_cons_self ..) schema hitem
        exact ⟨own, deep, fun _ h => Option.some.inj h ▸ hown⟩
    refine ⟨own ∪ references, max deep depth, ?_⟩
    intro other hother schema hschema
    rcases List.mem_cons.mp hother with rfl | hother
    · exact (hown schema hschema).mono Finset.subset_union_left (Nat.le_max_left ..)
    · exact (hrest other hother schema hschema).mono Finset.subset_union_right
        (Nat.le_max_right ..)

/-- A member of a composition is smaller than the schema. -/
theorem sizeOf_member_lt {composition : Composition} {schema member : Schema}
    {nodes : List SchemaNode} (hnodes : composition.members? schema = some nodes)
    (hmember : SchemaNode.object member ∈ nodes) : sizeOf member < sizeOf schema := by
  have hlt := List.sizeOf_lt_of_mem hmember
  have hobject : sizeOf (SchemaNode.object member) = 1 + sizeOf member := by simp
  have hle : sizeOf nodes < sizeOf schema := by
    cases composition <;> cases schema <;> simp_all [Composition.members?] <;> omega
  omega

/-- Every schema has bounds. -/
theorem exists_nests (schema : Schema) : ∃ references depth, Nests references depth schema := by
  -- The members of the three compositions, one after the other.
  have hmembers : ∀ composition : Composition, ∃ references depth,
      ∀ node ∈ (composition.members? schema).getD [], ∀ member, node.object? = some member →
        Nests references depth member := by
    intro composition
    refine exists_nests_forall SchemaNode.object? _ ?_
    intro node hnode member hmember
    cases hnodes : composition.members? schema with
    | none =>
      rw [hnodes] at hnode
      cases hnode
    | some nodes =>
      rw [hnodes] at hnode
      cases node with
      | bool admits => cases hmember
      | object other =>
        obtain rfl : other = member := Option.some.inj hmember
        have := sizeOf_member_lt hnodes hnode
        exact exists_nests other
  obtain ⟨allOf, allDepth, hall⟩ := hmembers .allOf
  obtain ⟨anyOf, anyDepth, hany⟩ := hmembers .anyOf
  obtain ⟨oneOf, oneDepth, hone⟩ := hmembers .oneOf
  refine ⟨schema.ref.toFinset ∪ (allOf ∪ (anyOf ∪ oneOf)),
    max allDepth (max anyDepth oneDepth) + 1, .intro ?_ ?_⟩
  · intro reference href
    refine Finset.mem_union_left _ ?_
    rw [href]
    simp
  · intro composition nodes member hnodes hmember
    cases composition with
    | allOf =>
      refine (hall (.object member) ?_ member rfl).mono ?_ (Nat.le_max_left ..)
      · rwa [hnodes]
      · exact fun _ h => Finset.mem_union_right _ (Finset.mem_union_left _ h)
    | anyOf =>
      refine (hany (.object member) ?_ member rfl).mono ?_ (by omega)
      · rwa [hnodes]
      · exact fun _ h =>
          Finset.mem_union_right _ (Finset.mem_union_right _ (Finset.mem_union_left _ h))
    | oneOf =>
      refine (hone (.object member) ?_ member rfl).mono ?_ (by omega)
      · rwa [hnodes]
      · exact fun _ h =>
          Finset.mem_union_right _ (Finset.mem_union_right _ (Finset.mem_union_right _ h))
termination_by sizeOf schema

/-- The schemas that references of one document lead to have bounds in common. -/
theorem exists_nests_targets (document : Json) : ∃ references depth, ∀ reference target,
    Reference.resolveNode document reference = some (.object target) →
      Nests references depth target := by
  obtain ⟨references, depth, h⟩ := exists_nests_forall
    (fun value => (SchemaNode.ofJson value).object?) document.parts
    (fun _ _ schema _ => exists_nests schema)
  refine ⟨references, depth, fun reference target htarget => ?_⟩
  obtain ⟨value, hvalue, hnode⟩ := Option.map_eq_some_iff.mp htarget
  refine h value (Reference.mem_parts_of_resolve hvalue) target ?_
  rw [hnode]
  rfl

end Schema
end TypedClient
