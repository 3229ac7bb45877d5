/-
  TypedClient.Proofs.Schema.Flatten

  Flattening a composition always ends, with the same answer for every sufficient fuel: a chain of
  references that are being followed never repeats one, and there are only finitely many in a
  document and a schema.  The answer of a clean schema is clean, and holds no composition.
-/
import Mathlib.Data.Finset.Card
import TypedClient.Proofs.Fuel
import TypedClient.Proofs.Schema.Nesting

namespace TypedClient
namespace Schema

variable {document : Json}

/-! ## One step -/

theorem flattenWithin_succ (document : Json) (fuel : Nat) (following : List String)
    (schema : Schema) : flattenWithin document (fuel + 1) following schema =
      (match schema.allOf with
      | none => some schema
      | some members => do
        let contributions ← members.mapM (memberWithin document fuel following)
        some (merge ((contributions.filterMap id).foldl merge empty)
          { schema with allOf := none })) := by
  exact rfl

theorem memberWithin_bool (document : Json) (fuel : Nat) (following : List String)
    (admits : Bool) : memberWithin document (fuel + 1) following (.bool admits) = some none := by
  exact rfl

theorem memberWithin_object (document : Json) (fuel : Nat) (following : List String)
    (member : Schema) : memberWithin document (fuel + 1) following (.object member) =
      (match member.cleanup.ref with
      | none =>
        (flattenWithin document fuel following { member.cleanup with ref := none }).map some
      | some reference =>
        if following.contains reference then some none
        else match Reference.resolveNode document reference with
          | some (.object target) => do
            let target ← memberWithin document fuel (reference :: following) (.object target)
            let siblings ← flattenWithin document fuel following { member.cleanup with ref := none }
            some (some (match target with
              | some target => merge siblings target
              | none => siblings))
          | _ => some none) := by
  exact rfl

/-! ## Fuel -/

/-- One more unit of fuel keeps what flattening answers, for a schema and for a member. -/
theorem flatten_refines_succ (document : Json) (fuel : Nat) :
    (∀ following schema, Refines (flattenWithin document fuel following schema)
      (flattenWithin document (fuel + 1) following schema)) ∧
    (∀ following node, Refines (memberWithin document fuel following node)
      (memberWithin document (fuel + 1) following node)) := by
  induction fuel with
  -- Each function calls the other with one unit less, so the two go together.
  | zero => exact ⟨fun _ _ => Refines.of_none _, fun _ _ => Refines.of_none _⟩
  | succ fuel ih =>
    obtain ⟨hschema, hmember⟩ := ih
    constructor
    · intro following schema
      rw [flattenWithin_succ, flattenWithin_succ]
      split
      · exact Refines.refl _
      · exact (Refines.mapM (hmember following) _).bind fun _ _ => Refines.refl _
    · intro following node
      cases node with
      | bool admits =>
        rw [memberWithin_bool, memberWithin_bool]
        exact Refines.refl _
      | object member =>
        rw [memberWithin_object, memberWithin_object]
        split
        · exact (hschema following _).map some
        · split
          · exact Refines.refl _
          · split
            · exact (hmember _ _).bind fun _ _ =>
                (hschema following _).bind fun _ _ => Refines.refl _
            · exact Refines.refl _

theorem flattenWithin_refines {fuel more : Nat} (h : fuel ≤ more) (following : List String)
    (schema : Schema) : Refines (flattenWithin document fuel following schema)
      (flattenWithin document more following schema) :=
  Refines.of_succ (fun fuel => (flatten_refines_succ document fuel).1 following schema) fuel more h

theorem memberWithin_refines {fuel more : Nat} (h : fuel ≤ more) (following : List String)
    (node : SchemaNode) : Refines (memberWithin document fuel following node)
      (memberWithin document more following node) :=
  Refines.of_succ (fun fuel => (flatten_refines_succ document fuel).2 following node) fuel more h

/-! ## What flattening answers -/

/-- A schema without a composition is its own answer. -/
theorem flattenWithin_of_allOf_eq_none {fuel : Nat} {following : List String}
    {schema result : Schema}
    (hnone : schema.allOf = none) (h : flattenWithin document fuel following schema = some result) :
    result = schema := by
  cases fuel with
  | zero => cases h
  | succ fuel =>
    rw [flattenWithin_succ, hnone] at h
    exact (Option.some.inj h).symm

/-- A composition is flattened to the contributions of its members, merged from left to right
    above the other keywords. -/
theorem flattenWithin_of_allOf_eq_some {fuel : Nat} {following : List String}
    {schema result : Schema} {members : List SchemaNode} (hsome : schema.allOf = some members)
    (h : flattenWithin document fuel following schema = some result) :
    ∃ less contributions, fuel = less + 1 ∧
      List.Forall₂ (fun node contribution =>
        memberWithin document less following node = some contribution) members contributions ∧
      result = merge ((contributions.filterMap id).foldl merge empty)
        { schema with allOf := none } := by
  cases fuel with
  | zero => cases h
  | succ fuel =>
    rw [flattenWithin_succ, hsome] at h
    obtain ⟨contributions, hcontributions, h⟩ := Option.bind_eq_some_iff.mp h
    exact ⟨fuel, contributions, rfl, mapM_eq_some_iff.mp hcontributions, (Option.some.inj h).symm⟩

/-- What a member contributes. Without a reference these are its own keywords, flattened. A
    reference that is not being followed yet and leads to a schema object puts them above what its
    target contributes; any other reference leaves nothing of the member. -/
theorem memberWithin_cases {fuel : Nat} {following : List String} {member : Schema}
    {contribution : Option Schema}
    (h : memberWithin document fuel following (.object member) = some contribution) :
    ∃ less, fuel = less + 1 ∧
      ((member.cleanup.ref = none ∧ ∃ siblings, contribution = some siblings ∧
        flattenWithin document less following { member.cleanup with ref := none } =
          some siblings) ∨
      ∃ reference, member.cleanup.ref = some reference ∧
        ((following.contains reference = false ∧ ∃ target siblings base,
          Reference.resolveNode document reference = some (.object target) ∧
          flattenWithin document less following { member.cleanup with ref := none } =
            some siblings ∧
          memberWithin document less (reference :: following) (.object target) = some base ∧
          contribution = some (base.elim siblings (merge siblings))) ∨
        (contribution = none ∧ (following.contains reference = true ∨
          ∀ target, Reference.resolveNode document reference ≠ some (.object target))))) := by
  cases fuel with
  | zero => cases h
  | succ fuel =>
    refine ⟨fuel, rfl, ?_⟩
    rw [memberWithin_object] at h
    split at h
    · next href =>
      obtain ⟨siblings, hsiblings, rfl⟩ := Option.map_eq_some_iff.mp h
      exact Or.inl ⟨href, siblings, rfl, hsiblings⟩
    · next reference href =>
      refine Or.inr ⟨reference, href, ?_⟩
      split at h
      · next hfollowing => exact Or.inr ⟨(Option.some.inj h).symm, Or.inl hfollowing⟩
      · next hfollowing =>
        split at h
        · next target htarget =>
          obtain ⟨base, hbase, h⟩ := Option.bind_eq_some_iff.mp h
          obtain ⟨siblings, hsiblings, h⟩ := Option.bind_eq_some_iff.mp h
          refine Or.inl ⟨by simpa using hfollowing, target, siblings, base, htarget, hsiblings,
            hbase, ?_⟩
          -- The target may contribute nothing, which leaves the keywords beside the reference.
          rw [← Option.some.inj h]
          cases base with
          | none => rfl
          | some base => rfl
        · next hother => exact Or.inr ⟨(Option.some.inj h).symm, Or.inr hother⟩

/-! ## The answer, whatever the fuel -/

/-- The answer of flattening, with enough fuel. -/
def Flattens (document : Json) (following : List String) (schema result : Schema) : Prop :=
  ∃ fuel, flattenWithin document fuel following schema = some result

/-- What a member contributes, with enough fuel. -/
def Contributes (document : Json) (following : List String) (node : SchemaNode)
    (contribution : Option Schema) : Prop :=
  ∃ fuel, memberWithin document fuel following node = some contribution

theorem Flattens.unique {following : List String} {schema first second : Schema}
    (hfirst : Flattens document following schema first)
    (hsecond : Flattens document following schema second) : first = second := by
  obtain ⟨fuel, hfuel⟩ := hfirst
  obtain ⟨more, hmore⟩ := hsecond
  exact Refines.unique (fun _ _ hle => flattenWithin_refines hle following schema) hfuel hmore

theorem Contributes.unique {following : List String} {node : SchemaNode}
    {first second : Option Schema} (hfirst : Contributes document following node first)
    (hsecond : Contributes document following node second) : first = second := by
  obtain ⟨fuel, hfuel⟩ := hfirst
  obtain ⟨more, hmore⟩ := hsecond
  exact Refines.unique (fun _ _ hle => memberWithin_refines hle following node) hfuel hmore

theorem Flattens.of_allOf_eq_none {following : List String} {schema result : Schema}
    (h : Flattens document following schema result) (hnone : schema.allOf = none) :
    result = schema := by
  obtain ⟨fuel, h⟩ := h
  exact flattenWithin_of_allOf_eq_none hnone h

theorem Flattens.of_allOf_eq_some {following : List String} {schema result : Schema}
    {members : List SchemaNode} (h : Flattens document following schema result)
    (hsome : schema.allOf = some members) :
    ∃ contributions, List.Forall₂ (Contributes document following) members contributions ∧
      result = merge ((contributions.filterMap id).foldl merge empty)
        { schema with allOf := none } := by
  obtain ⟨fuel, h⟩ := h
  obtain ⟨less, contributions, -, hcontributions, hresult⟩ := flattenWithin_of_allOf_eq_some hsome h
  exact ⟨contributions, hcontributions.imp fun _ _ hnode => ⟨less, hnode⟩, hresult⟩

/-- The contributions of a list of members are determined by it. -/
theorem contributions_unique {following : List String} {members : List SchemaNode}
    {first second : List (Option Schema)}
    (hfirst : List.Forall₂ (Contributes document following) members first)
    (hsecond : List.Forall₂ (Contributes document following) members second) :
    first = second := by
  induction hfirst generalizing second with
  | nil =>
    cases hsecond
    rfl
  | cons hnode _ ih =>
    cases hsecond with
    | cons hother hrest => rw [hnode.unique hother, ih hrest]

/-! ## What every step keeps -/

/-- Facts about schemas and their flattened forms, and about members and what they contribute, that
    every step of flattening keeps. -/
structure KeptByFlattening (document : Json) (flat : List String → Schema → Schema → Prop)
    (contributed : List String → SchemaNode → Option Schema → Prop) : Prop where
  /-- A schema without a composition is its own flattened form. -/
  plain : ∀ following schema, schema.allOf = none → flat following schema schema
  /-- Contributions of the members of a composition are merged above the other keywords. -/
  composed : ∀ following schema members contributions, schema.allOf = some members →
    List.Forall₂ (contributed following) members contributions →
      flat following schema
        (merge ((contributions.filterMap id).foldl merge empty) { schema with allOf := none })
  bool : ∀ following admits, contributed following (.bool admits) none
  /-- A member without a reference contributes its own keywords. -/
  inline : ∀ following member siblings, member.cleanup.ref = none →
    flat following { member.cleanup with ref := none } siblings →
      contributed following (.object member) (some siblings)
  /-- A reference that is followed contributes its target below the keywords beside it. -/
  target : ∀ following member reference target siblings base,
    member.cleanup.ref = some reference → reference ∉ following →
      Reference.resolveNode document reference = some (.object target) →
        flat following { member.cleanup with ref := none } siblings →
          contributed (reference :: following) (.object target) base →
            contributed following (.object member) (some (base.elim siblings (merge siblings)))
  /-- Any other reference leaves nothing of the member. -/
  skipped : ∀ following member reference, member.cleanup.ref = some reference →
    (reference ∈ following ∨
      ∀ target, Reference.resolveNode document reference ≠ some (.object target)) →
        contributed following (.object member) none

/-- What every step keeps holds of every answer. -/
theorem KeptByFlattening.within {flat : List String → Schema → Schema → Prop}
    {contributed : List String → SchemaNode → Option Schema → Prop}
    (h : KeptByFlattening document flat contributed) (fuel : Nat) :
    (∀ following schema result, flattenWithin document fuel following schema = some result →
      flat following schema result) ∧
    (∀ following node contribution,
      memberWithin document fuel following node = some contribution →
        contributed following node contribution) := by
  induction fuel with
  -- Each function calls the other with one unit less, so the two go together.
  | zero => exact ⟨fun _ _ _ h => (by cases h), fun _ _ _ h => (by cases h)⟩
  | succ fuel ih =>
    obtain ⟨hschema, hmember⟩ := ih
    constructor
    · intro following schema result hresult
      cases hallOf : schema.allOf with
      | none =>
        obtain rfl := flattenWithin_of_allOf_eq_none hallOf hresult
        exact h.plain following result hallOf
      | some members =>
        obtain ⟨less, contributions, hless, hcontributions, rfl⟩ :=
          flattenWithin_of_allOf_eq_some hallOf hresult
        obtain rfl : fuel = less := Nat.succ.inj hless
        exact h.composed following schema members contributions hallOf
          (hcontributions.imp fun node contribution => hmember following node contribution)
    · intro following node contribution hcontribution
      cases node with
      | bool admits =>
        rw [memberWithin_bool] at hcontribution
        exact Option.some.inj hcontribution ▸ h.bool following admits
      | object member =>
        obtain ⟨less, hless, hcases⟩ := memberWithin_cases hcontribution
        obtain rfl : fuel = less := Nat.succ.inj hless
        rcases hcases with ⟨href, siblings, rfl, hsiblings⟩ | ⟨reference, href, hcases⟩
        · exact h.inline following member siblings href (hschema _ _ _ hsiblings)
        rcases hcases with
          ⟨hfresh, target, siblings, base, htarget, hsiblings, hbase, rfl⟩ | ⟨rfl, hnothing⟩
        · exact h.target following member reference target siblings base href
            (by simpa using hfresh) htarget (hschema _ _ _ hsiblings) (hmember _ _ _ hbase)
        · exact h.skipped following member reference href
            (hnothing.imp_left fun hmem => by simpa using hmem)

theorem KeptByFlattening.flattens {flat : List String → Schema → Schema → Prop}
    {contributed : List String → SchemaNode → Option Schema → Prop}
    (h : KeptByFlattening document flat contributed) {following : List String}
    {schema result : Schema} (hresult : Flattens document following schema result) :
    flat following schema result := by
  obtain ⟨fuel, hresult⟩ := hresult
  exact (h.within fuel).1 following schema result hresult

/-- What is merged for a composition is contributed by its members. -/
theorem exists_member_of_part {contributed : SchemaNode → Option Schema → Prop}
    {members : List SchemaNode} {contributions : List (Option Schema)} {part : Schema}
    (h : List.Forall₂ contributed members contributions)
    (hpart : part ∈ contributions.filterMap id) :
    ∃ node ∈ members, contributed node (some part) := by
  obtain ⟨contribution, hmem, rfl⟩ := List.mem_filterMap.mp hpart
  exact exists_of_forall₂_right h hmem

/-! ## Clean answers -/

theorem normal_foldl_merge {parts : List Schema} {start : Schema} (hstart : Normal start)
    (hparts : ∀ part ∈ parts, Normal part) : Normal (parts.foldl merge start) := by
  induction parts generalizing start with
  | nil => exact hstart
  | cons part rest ih =>
    exact ih (hstart.merge (hparts part (List.mem_cons_self ..)))
      fun other hother => hparts other (List.mem_cons_of_mem _ hother)

theorem allOf_foldl_merge {parts : List Schema} {start : Schema} (hstart : start.allOf = none)
    (hparts : ∀ part ∈ parts, part.allOf = none) : (parts.foldl merge start).allOf = none := by
  induction parts generalizing start with
  | nil => exact hstart
  | cons part rest ih =>
    refine ih ?_ fun other hother => hparts other (List.mem_cons_of_mem _ hother)
    rw [merge_allOf, hstart, hparts part (List.mem_cons_self ..)]
    rfl

/-- A clean schema is flattened to a clean one without a composition, and so is every member. -/
theorem keptByFlattening_clean (document : Json) : KeptByFlattening document
    (fun _ schema result => Normal schema → Normal result ∧ result.allOf = none)
    (fun _ _ contribution => ∀ part, contribution = some part →
      Normal part ∧ part.allOf = none) where
  plain _ _ hallOf hnormal := ⟨hnormal, hallOf⟩
  composed _ schema members contributions _ hcontributions hnormal := by
    have hparts : ∀ part ∈ contributions.filterMap id, Normal part ∧ part.allOf = none := by
      intro part hpart
      obtain ⟨_, -, hclean⟩ := exists_member_of_part hcontributions hpart
      exact hclean part rfl
    refine ⟨(normal_foldl_merge normal_empty fun part h => (hparts part h).1).merge
      (hnormal.normalBut [.allOf]).remove, ?_⟩
    rw [merge_allOf, allOf_foldl_merge rfl fun part h => (hparts part h).2]
    rfl
  bool _ _ _ h := by cases h
  -- A member is cleaned first, so that its own keywords are clean without its reference.
  inline _ member siblings _ hsiblings part hpart := by
    cases hpart
    exact hsiblings (normal_cleanup member).withoutRef
  target _ member _ _ siblings base _ _ _ hsiblings hbase part hpart := by
    obtain ⟨hnormal, hallOf⟩ := hsiblings (normal_cleanup member).withoutRef
    cases hpart
    cases base with
    | none => exact ⟨hnormal, hallOf⟩
    | some base =>
      obtain ⟨hbaseNormal, hbaseAllOf⟩ := hbase base rfl
      refine ⟨hnormal.merge hbaseNormal, ?_⟩
      rw [Option.elim, merge_allOf, hallOf, hbaseAllOf]
      rfl
  skipped _ _ _ _ _ _ h := by cases h

/-- A clean schema is flattened to a clean one without a composition. -/
theorem Flattens.clean {following : List String} {schema result : Schema}
    (h : Flattens document following schema result) (hnormal : Normal schema) :
    Normal result ∧ result.allOf = none :=
  (keptByFlattening_clean document).flattens h hnormal

/-! ## Flattening ends -/

section Totality

variable {references : Finset String} {deep : Nat}

/-- A reference that is followed next leaves fewer of the references to follow. -/
theorem card_sdiff_cons_lt {following : List String} {reference : String}
    (hmem : reference ∈ references) (hfollowing : following.contains reference = false) :
    (references \ (reference :: following).toFinset).card <
      (references \ following.toFinset).card := by
  refine Finset.card_lt_card ?_
  rw [Finset.ssubset_iff_of_subset ?_]
  · exact ⟨reference, by simpa [hmem] using hfollowing, by simp⟩
  · exact Finset.sdiff_subset_sdiff (Finset.Subset.refl _) (by simp)

/-- Flattening ends while only `left` of the references may still be followed, when every target
    of a reference stays within the bounds. -/
theorem flatten_ends
    (htargets : ∀ reference target, Reference.resolveNode document reference =
      some (.object target) → Nests references deep target) (left : Nat) :
    ∀ following, (references \ following.toFinset).card = left → ∀ depth schema,
      Nests references depth schema →
        (∃ fuel result, flattenWithin document fuel following schema = some result) ∧
        (∃ fuel contribution,
          memberWithin document fuel following (.object schema) = some contribution) := by
  -- Members nest less deep; a followed reference starts anew, with fewer references left.
  induction left using Nat.strongRecOn with
  | ind left ihLeft =>
    intro following hleft depth
    induction depth with
    | zero => exact fun schema h => by cases h
    | succ depth ihDepth =>
      -- The members of a composition nest less deep than the composition.
      have hflatten : ∀ schema, Nests references (depth + 1) schema →
          ∃ fuel result, flattenWithin document fuel following schema = some result := by
        intro schema hnests
        cases hallOf : schema.allOf with
        | none =>
          refine ⟨1, schema, ?_⟩
          rw [flattenWithin_succ, hallOf]
        | some members =>
          have heach : ∀ node ∈ members, ∃ fuel contribution,
              memberWithin document fuel following node = some contribution := by
            intro node hnode
            cases node with
            | bool admits => exact ⟨1, none, memberWithin_bool ..⟩
            | object member =>
              exact (ihDepth member (hnests.members .allOf members member hallOf hnode)).2
          obtain ⟨fuel, contributions, hcontributions⟩ := exists_fuel_mapM
            (fun _ _ node hle => memberWithin_refines hle following node) heach
          refine ⟨fuel + 1, ?_⟩
          rw [flattenWithin_succ, hallOf]
          exact ⟨_, Option.bind_eq_some_iff.mpr ⟨contributions, hcontributions, rfl⟩⟩
      intro schema hnests
      refine ⟨hflatten schema hnests, ?_⟩
      obtain ⟨fuel, siblings, hsiblings⟩ := hflatten _ hnests.cleanup.withoutRef
      cases href : schema.cleanup.ref with
      | none =>
        refine ⟨fuel + 1, some siblings, ?_⟩
        rw [memberWithin_object, href]
        exact Option.map_eq_some_iff.mpr ⟨siblings, hsiblings, rfl⟩
      | some reference =>
        by_cases hfollowing : following.contains reference = true
        · refine ⟨1, none, ?_⟩
          rw [memberWithin_object, href]
          exact if_pos hfollowing
        rw [Bool.not_eq_true] at hfollowing
        by_cases htarget : ∃ target, Reference.resolveNode document reference =
            some (.object target)
        · obtain ⟨target, htarget⟩ := htarget
          -- One more reference is followed, so that fewer are left.
          have hlt := card_sdiff_cons_lt (hnests.cleanup.ref reference href) hfollowing
          rw [hleft] at hlt
          obtain ⟨more, base, hbase⟩ := (ihLeft _ hlt (reference :: following) rfl deep target
            (htargets reference target htarget)).2
          refine ⟨max fuel more + 1, ?_⟩
          rw [memberWithin_object, href]
          dsimp only
          rw [if_neg (by rw [hfollowing]; exact Bool.false_ne_true), htarget]
          exact ⟨_, Option.bind_eq_some_iff.mpr
            ⟨base, memberWithin_refines (Nat.le_max_right ..) _ _ base hbase,
              Option.bind_eq_some_iff.mpr
                ⟨siblings, flattenWithin_refines (Nat.le_max_left ..) _ _ siblings hsiblings,
                  rfl⟩⟩⟩
        · refine ⟨1, none, ?_⟩
          rw [memberWithin_object, href]
          dsimp only
          rw [if_neg (by rw [hfollowing]; exact Bool.false_ne_true)]
          split
          · next target heq => exact absurd ⟨target, heq⟩ htarget
          · rfl

end Totality

/-- Flattening a schema ends, whatever references are being followed. -/
theorem exists_flattens (document : Json) (following : List String) (schema : Schema) :
    ∃ result, Flattens document following schema result := by
  obtain ⟨references, deep, htargets⟩ := exists_nests_targets document
  obtain ⟨own, depth, hown⟩ := exists_nests schema
  have htargets : ∀ reference target, Reference.resolveNode document reference =
      some (.object target) → Nests (own ∪ references) deep target := fun reference target h =>
    (htargets reference target h).mono Finset.subset_union_right (Nat.le_refl _)
  have hown : Nests (own ∪ references) depth schema :=
    hown.mono Finset.subset_union_left (Nat.le_refl depth)
  obtain ⟨⟨fuel, result, h⟩, -⟩ := flatten_ends htargets _ following rfl depth schema hown
  exact ⟨result, fuel, h⟩

end Schema

/-! ## What registration stores -/

namespace SchemaNode

open Schema

variable {document : Json} {node stored : SchemaNode}

/-- What registration stores for a node: the cleaned node, its composition flattened. -/
def Stores (document : Json) (node stored : SchemaNode) : Prop :=
  ∃ fuel, node.cleanup.flattenAllOf? document fuel = some stored

/-- A schema object is stored as its cleaned form, flattened. -/
theorem stores_object_iff {schema : Schema} : Stores document (.object schema) stored ↔
    ∃ result, Flattens document [] schema.cleanup result ∧ stored = .object result := by
  unfold Stores SchemaNode.cleanup SchemaNode.flattenAllOf?
  dsimp only
  cases hallOf : schema.cleanup.allOf with
  | none =>
    simp only [Option.isSome_none, Bool.false_eq_true, if_false]
    constructor
    · rintro ⟨-, h⟩
      refine ⟨schema.cleanup, ⟨1, ?_⟩, (Option.some.inj h).symm⟩
      rw [flattenWithin_succ, hallOf]
    · rintro ⟨result, h, rfl⟩
      exact ⟨0, by rw [h.of_allOf_eq_none hallOf]⟩
  | some members =>
    simp only [Option.isSome_some, if_true]
    constructor
    · rintro ⟨fuel, h⟩
      obtain ⟨result, hresult, heq⟩ := Option.map_eq_some_iff.mp h
      exact ⟨result, ⟨fuel, hresult⟩, heq.symm⟩
    · rintro ⟨result, ⟨fuel, h⟩, rfl⟩
      exact ⟨fuel, Option.map_eq_some_iff.mpr ⟨result, h, rfl⟩⟩

/-- A truth value is stored as it is. -/
theorem stores_bool_iff {admits : Bool} :
    Stores document (.bool admits) stored ↔ stored = .bool admits := by
  constructor
  · rintro ⟨fuel, h⟩
    exact (Option.some.inj h).symm
  · rintro rfl
    exact ⟨0, rfl⟩

/-- Something is stored for every node. -/
theorem exists_stores (document : Json) (node : SchemaNode) :
    ∃ stored, Stores document node stored := by
  cases node with
  | bool admits => exact ⟨.bool admits, stores_bool_iff.mpr rfl⟩
  | object schema =>
    obtain ⟨result, hresult⟩ := exists_flattens document [] schema.cleanup
    exact ⟨.object result, stores_object_iff.mpr ⟨result, hresult, rfl⟩⟩

/-- A clean schema without a composition is stored as it is. -/
theorem Stores.eq_of_normal {schema : Schema} (h : Stores document (.object schema) stored)
    (hnormal : Normal schema) (hallOf : schema.allOf = none) : stored = .object schema := by
  obtain ⟨result, hresult, rfl⟩ := stores_object_iff.mp h
  rw [cleanup_of_normal hnormal] at hresult
  rw [hresult.of_allOf_eq_none hallOf]

theorem Stores.unique {first second : SchemaNode} (hfirst : Stores document node first)
    (hsecond : Stores document node second) : first = second := by
  cases node with
  | bool admits => rw [stores_bool_iff.mp hfirst, stores_bool_iff.mp hsecond]
  | object schema =>
    obtain ⟨result, hresult, rfl⟩ := stores_object_iff.mp hfirst
    obtain ⟨other, hother, rfl⟩ := stores_object_iff.mp hsecond
    rw [hresult.unique hother]

/-- What is stored is clean and has no composition. -/
theorem Stores.clean {schema : Schema} (h : Stores document node (.object schema)) :
    Normal schema ∧ schema.allOf = none := by
  cases node with
  | bool admits => cases stores_bool_iff.mp h
  | object other =>
    obtain ⟨result, hresult, heq⟩ := stores_object_iff.mp h
    cases heq
    exact hresult.clean (normal_cleanup other)

/-- The schema read from what is stored has no composition. -/
theorem Stores.allOf_eq_none {schema : Schema} (h : Stores document node stored)
    (hschema : stored.toSchema? = some schema) : schema.allOf = none := by
  match stored, hschema with
  | .bool true, hschema =>
    rw [← Option.some.inj hschema]
    rfl
  | .object other, hschema =>
    obtain ⟨hnormal, hallOf⟩ := h.clean
    rw [← Option.some.inj hschema, cleanup_of_normal hnormal, hallOf]

/-- Without a composition the schema read from a node is the one read from what is stored. -/
theorem Stores.toSchema?_eq {schema : Schema} (h : Stores document node stored)
    (hschema : node.toSchema? = some schema) (hallOf : schema.allOf = none) :
    stored.toSchema? = some schema := by
  cases node with
  | bool admits =>
    rw [stores_bool_iff.mp h]
    exact hschema
  | object other =>
    obtain ⟨result, hresult, rfl⟩ := stores_object_iff.mp h
    have hother : other.cleanup = schema := Option.some.inj hschema
    rw [hother] at hresult
    rw [hresult.of_allOf_eq_none hallOf]
    exact toSchema?_object hschema

end SchemaNode
end TypedClient
