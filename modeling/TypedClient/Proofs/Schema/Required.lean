/-
  TypedClient.Proofs.Schema.Required

  The names that a composition requires.  Merging joins the required names of two schemas when one
  of them declares properties.  Of two schemas without properties it keeps one list, the first,
  like that of any other keyword.

  So where the members of a composition stand decides which names it requires.  From the first part
  with properties on every list of names is kept, and of the parts before it only one is.
-/
import Mathlib.Data.List.TakeWhile
import TypedClient.Proofs.Schema.Layers

namespace TypedClient

/-- A member that is written on the spot: it neither refers to a schema nor composes any. -/
def SchemaNode.Inline : SchemaNode → Prop
  | .bool _ => True
  | .object schema =>
    schema.ref = none ∧ ∀ composition : Composition, composition.members? schema = none

namespace Schema

variable {document : Json} {schema resolved first second : Schema}

/-- The names that a schema requires. -/
def requiredNames (schema : Schema) : List String := schema.required.getD []

/-- The schemas that are merged for a composition, in order: its member objects, and last the schema
    that holds them. -/
def parts (schema : Schema) : List Schema :=
  (schema.allOf.getD []).filterMap SchemaNode.object? ++ [schema]

/-- The schemas before the first one that declares properties. -/
def beforeProperties (parts : List Schema) : List Schema := parts.takeWhile (·.properties.isNone)

/-- The schemas from the first one that declares properties on. -/
def fromProperties (parts : List Schema) : List Schema := parts.dropWhile (·.properties.isNone)

theorem before_append_from (parts : List Schema) :
    beforeProperties parts ++ fromProperties parts = parts := List.takeWhile_append_dropWhile

theorem properties_of_mem_before {parts : List Schema} {part : Schema}
    (h : part ∈ beforeProperties parts) : part.properties = none := by
  have hnone : part.properties.isNone = true :=
    List.mem_takeWhile_imp (p := fun other : Schema => other.properties.isNone) h
  exact Option.isNone_iff_eq_none.mp hnone

theorem isSome_of_from_eq_cons {parts rest : List Schema} {part : Schema}
    (h : fromProperties parts = part :: rest) : part.properties.isSome := by
  have hhead := List.head?_dropWhile_not (fun other : Schema => other.properties.isNone) parts
  rw [show parts.dropWhile _ = _ from h] at hhead
  simpa using hhead

/-- The first list of names from before properties are declared, and all lists from there on. -/
def keptNames (parts : List Schema) : List String :=
  ((beforeProperties parts).findSome? (·.required)).getD [] ++
    (fromProperties parts).flatMap requiredNames

/-! ## Required names of merged schemas -/

/-- With properties on either side the names of both are kept. -/
theorem requiredNames_merge (h : (first.properties.isSome || second.properties.isSome) = true) :
    (merge first second).requiredNames = first.requiredNames ++ second.requiredNames := by
  unfold requiredNames
  rw [merge_required, if_pos h, mergedRequired]
  cases first.required <;> cases second.required <;> rfl

/-- Once properties are declared no name is lost. -/
theorem requiredNames_foldl_merge {start : Schema} (hstart : start.properties.isSome)
    (parts : List Schema) :
    (parts.foldl merge start).requiredNames =
      start.requiredNames ++ parts.flatMap requiredNames := by
  induction parts generalizing start with
  | nil => rw [List.foldl_nil, List.flatMap_nil, List.append_nil]
  | cons part rest ih =>
    have hmerged : (merge start part).properties.isSome := by
      rw [isSome_merge_properties, hstart, Bool.true_or]
    rw [List.foldl_cons, ih hmerged, requiredNames_merge (by rw [hstart, Bool.true_or]),
      List.append_assoc, List.flatMap_cons]

/-- Until properties are declared the first list of names is kept. -/
theorem required_foldl_merge {parts : List Schema} {start : Schema}
    (hstart : start.properties = none) (hparts : ∀ part ∈ parts, part.properties = none) :
    (parts.foldl merge start).properties = none ∧
      (parts.foldl merge start).required = start.required.or (parts.findSome? (·.required)) := by
  induction parts generalizing start with
  | nil => exact ⟨hstart, Option.or_none.symm⟩
  | cons part rest ih =>
    have hpart : part.properties = none := hparts part List.mem_cons_self
    have hneither : ¬ (start.properties.isSome || part.properties.isSome) = true := by
      simp [hstart, hpart]
    have hmerged : (merge start part).properties = none := by
      rw [merge_properties, if_neg hneither]
    obtain ⟨hproperties, hrequired⟩ :=
      ih hmerged fun other hother => hparts other (List.mem_cons_of_mem _ hother)
    refine ⟨hproperties, hrequired.trans ?_⟩
    rw [merge_required, if_neg hneither, Option.or_assoc, List.findSome?_cons]
    cases part.required <;> rfl

/-- What a row of schemas requires, merged from left to right. -/
theorem requiredNames_merged (parts : List Schema) :
    (parts.foldl merge empty).requiredNames = keptNames parts := by
  have hnone : empty.properties = none := rfl
  have hkept : ((beforeProperties parts).foldl merge empty).requiredNames =
      ((beforeProperties parts).findSome? (·.required)).getD [] := by
    rw [requiredNames, (required_foldl_merge hnone fun _ => properties_of_mem_before).2]
    rfl
  unfold keptNames
  conv_lhs => rw [← before_append_from parts, List.foldl_append]
  cases hfrom : fromProperties parts with
  | nil => rw [List.foldl_nil, hkept, List.flatMap_nil, List.append_nil]
  | cons part rest =>
    -- The first part with properties joins its names to what is kept so far.
    have hpart := isSome_of_from_eq_cons hfrom
    rw [List.foldl_cons, requiredNames_foldl_merge, requiredNames_merge, hkept, List.append_assoc,
      List.flatMap_cons]
    · rw [hpart, Bool.or_true]
    · rw [isSome_merge_properties, hpart, Bool.or_true]

/-- Nothing is kept that no schema requires. -/
theorem exists_of_mem_keptNames {parts : List Schema} {name : String}
    (h : name ∈ keptNames parts) : ∃ part ∈ parts, name ∈ part.requiredNames := by
  rcases List.mem_append.mp h with hname | hname
  · cases hfirst : (beforeProperties parts).findSome? (·.required) with
    | none =>
      rw [hfirst] at hname
      cases hname
    | some names =>
      obtain ⟨part, hpart, hrequired⟩ := List.exists_of_findSome?_eq_some hfirst
      refine ⟨part, (List.takeWhile_sublist _).mem hpart, ?_⟩
      rw [hfirst] at hname
      rw [requiredNames, hrequired]
      exact hname
  · obtain ⟨part, hpart, hname⟩ := List.mem_flatMap.mp hname
    exact ⟨part, (List.dropWhile_sublist _).mem hpart, hname⟩

/-- A name is lost only from before properties are declared. -/
theorem mem_keptNames_or {parts : List Schema} {part : Schema} {name : String}
    (hpart : part ∈ parts) (hname : name ∈ part.requiredNames) :
    part ∈ beforeProperties parts ∨ name ∈ keptNames parts := by
  rw [← before_append_from parts] at hpart
  refine (List.mem_append.mp hpart).imp_right fun hfrom => ?_
  exact List.mem_append_right _ (List.mem_flatMap.mpr ⟨part, hfrom, hname⟩)

/-! ## Members that are written on the spot -/

/-- Two schemas declare the same properties and require the same names. -/
structure SameShape (first second : Schema) : Prop where
  properties : first.properties = second.properties
  required : first.required = second.required

theorem SameShape.merge {first' second' : Schema} (hfirst : SameShape first first')
    (hsecond : SameShape second second') :
    SameShape (Schema.merge first second) (Schema.merge first' second') where
  properties := by
    rw [merge_properties, merge_properties, mergedProperties, mergedProperties, hfirst.properties,
      hsecond.properties]
  required := by
    rw [merge_required, merge_required, mergedRequired, mergedRequired, hfirst.properties,
      hsecond.properties, hfirst.required, hsecond.required]

/-- Without compositions there is only the type to clean. -/
theorem cleanup_of_plain (h : ∀ composition : Composition, composition.members? schema = none) :
    schema.cleanup = schema.settleType := by
  have hnone : ∀ composition : Composition, composition.members? schema.settleType = none :=
    fun composition => (members?_settleType composition schema).trans (h composition)
  have hnormal : Normal schema.settleType :=
    normal_of_plain (hnone .allOf) (hnone .anyOf) (hnone .oneOf) fun _ => settleType_type
  rw [cleanup_eq_cleanupOnce, cleanupOnce, pass, dropEmptyOneOf_of_normal hnormal,
    collapse_of_normal hnormal, collapse_of_normal hnormal, collapse_of_normal hnormal]

/-- A member that is written on the spot contributes what it declares itself. -/
theorem Contributes.sameShape {following : List String} {member : Schema}
    {contribution : Option Schema} (h : Contributes document following (.object member) contribution)
    (hinline : (SchemaNode.object member).Inline) :
    ∃ part, contribution = some part ∧ SameShape member part := by
  obtain ⟨href, hmembers⟩ := hinline
  have hclean := cleanup_of_plain hmembers
  obtain ⟨fuel, h⟩ := h
  obtain ⟨less, -, ⟨-, part, rfl, hpart⟩ | ⟨reference, hreference, -⟩⟩ := memberWithin_cases h
  · have hallOf : ({ member.cleanup with ref := none } : Schema).allOf = none := by
      rw [hclean]
      exact (settleType_allOf member).trans (hmembers .allOf)
    obtain rfl := flattenWithin_of_allOf_eq_none hallOf hpart
    rw [hclean]
    exact ⟨_, rfl, (settleType_properties member).symm, (settleType_required member).symm⟩
  · rw [hclean, settleType_ref, href] at hreference
    cases hreference

theorem sameShape_contributions {members : List SchemaNode} {contributions : List (Option Schema)}
    (h : List.Forall₂ (Contributes document []) members contributions)
    (hinline : ∀ node ∈ members, node.Inline) :
    List.Forall₂ SameShape (members.filterMap SchemaNode.object?)
      (contributions.filterMap id) := by
  induction h with
  | nil => exact .nil
  | @cons node contribution members contributions hnode _ ih =>
    have hrest := ih fun other hother => hinline other (List.mem_cons_of_mem _ hother)
    cases node with
    | bool admits =>
      obtain rfl : contribution = none := hnode.unique ⟨1, memberWithin_bool ..⟩
      exact hrest
    | object member =>
      obtain ⟨part, rfl, hpart⟩ := hnode.sameShape (hinline _ List.mem_cons_self)
      exact .cons hpart hrest

/-- A composition of such members has the shape of its parts, merged. -/
theorem Resolves.sameShape {members : List SchemaNode} (h : Resolves document schema resolved)
    (hallOf : schema.allOf = some members) (hinline : ∀ node ∈ members, node.Inline) :
    SameShape (schema.parts.foldl Schema.merge empty) resolved := by
  obtain ⟨contributions, hcontributions, rfl⟩ := h.flattens.of_allOf_eq_some hallOf
  have hmembers : SameShape
      ((members.filterMap SchemaNode.object?).foldl Schema.merge empty)
      ((contributions.filterMap id).foldl Schema.merge empty) :=
    List.rel_foldl (fun _ _ hfirst _ _ hsecond => hfirst.merge hsecond) ⟨rfl, rfl⟩
      (sameShape_contributions hcontributions hinline)
  unfold parts
  rw [hallOf, List.foldl_append]
  exact hmembers.merge ⟨rfl, rfl⟩

/-- The names that a composition of members written on the spot requires: the first list of names
    from before properties are declared, and all lists from there on. So none of the names that
    its parts require is lost just when those from before are all kept. -/
theorem resolved_requiredNames (document : Json) {schema : Schema} {members : List SchemaNode}
    (hallOf : schema.allOf = some members) (hinline : ∀ node ∈ members, node.Inline) :
    ∃ resolved, Resolves document schema resolved ∧
      resolved.requiredNames = keptNames schema.parts ∧
      ((∀ name, name ∈ resolved.requiredNames ↔
          ∃ part ∈ schema.parts, name ∈ part.requiredNames) ↔
        ∀ part ∈ beforeProperties schema.parts, ∀ name ∈ part.requiredNames,
          name ∈ keptNames schema.parts) := by
  obtain ⟨resolved, hresolved⟩ := exists_flattens document [] schema
  have hkept : resolved.requiredNames = keptNames schema.parts := by
    have hshape : SameShape _ resolved := Resolves.sameShape hresolved hallOf hinline
    rw [← requiredNames_merged, requiredNames, requiredNames, hshape.required]
  refine ⟨resolved, hresolved, hkept, ?_⟩
  rw [hkept]
  constructor
  · intro hall part hpart name hname
    exact (hall name).mpr ⟨part, (List.takeWhile_sublist _).mem hpart, hname⟩
  · intro hbefore name
    refine ⟨exists_of_mem_keptNames, ?_⟩
    rintro ⟨part, hpart, hname⟩
    rcases mem_keptNames_or hpart hname with hlate | hkept
    · exact hbefore part hlate name hname
    · exact hkept

/-! ### A composition that loses a name -/

theorem inline_object (properties : Option (Keyed SchemaNode)) (required : Option (List String)) :
    (SchemaNode.object { properties := properties, required := required }).Inline :=
  ⟨rfl, fun composition => by cases composition <;> rfl⟩

/-- Members of a barge: one requires an id, one requires a cargo, and one declares both and requires
    a flag. -/
def bargeMembers : List SchemaNode :=
  [.object { required := some ["id"] }, .object { required := some ["cargo"] },
    .object { properties := some [("id", .bool true), ("cargo", .bool true)],
              required := some ["flag"] }]

/-- A barge itself requires an owner. -/
def barge : Schema where
  allOf := some bargeMembers
  required := some ["owner"]

theorem bargeMembers_inline : ∀ node ∈ bargeMembers, node.Inline := by
  simp only [bargeMembers, List.forall_mem_cons]
  exact ⟨inline_object _ _, inline_object _ _, inline_object _ _, nofun⟩

/-- A barge does not require a cargo. -/
theorem barge_requiredNames : barge.allOf = some bargeMembers ∧
    (∀ node ∈ bargeMembers, node.Inline) ∧ ∃ resolved, Resolves .null barge resolved ∧
      resolved.requiredNames = ["id", "flag", "owner"] := by
  have hallOf : barge.allOf = some bargeMembers := rfl
  obtain ⟨resolved, hresolved, hnames, -⟩ :=
    resolved_requiredNames .null hallOf bargeMembers_inline
  exact ⟨hallOf, bargeMembers_inline, resolved, hresolved, hnames⟩

/-- Names are lost, also where a part declares properties. -/
theorem barge_loses_cargo : ¬ ∀ (document : Json) (schema : Schema) (members : List SchemaNode)
    (resolved : Schema), schema.allOf = some members → (∀ node ∈ members, node.Inline) →
      (∃ part ∈ schema.parts, part.properties.isSome) → Resolves document schema resolved →
        ∀ name, name ∈ resolved.requiredNames ↔
          ∃ part ∈ schema.parts, name ∈ part.requiredNames := by
  intro h
  obtain ⟨resolved, hresolved⟩ := exists_flattens .null [] barge
  have hnames : resolved.requiredNames = ["id", "flag", "owner"] := by
    have hshape := Resolves.sameShape hresolved rfl bargeMembers_inline
    rw [requiredNames, ← hshape.required]
    rfl
  have hcargo := (h .null barge bargeMembers resolved rfl bargeMembers_inline
    ⟨_, List.mem_cons_of_mem _ (List.mem_cons_of_mem _ List.mem_cons_self), rfl⟩ hresolved
    "cargo").mpr ⟨_, List.mem_cons_of_mem _ List.mem_cons_self, List.mem_singleton_self _⟩
  rw [hnames] at hcargo
  exact absurd hcargo (by decide)

end Schema
end TypedClient
