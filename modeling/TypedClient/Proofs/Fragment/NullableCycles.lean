/-
  TypedClient.Proofs.Fragment.NullableCycles

  Which documents are rendered without end.  A reference is printed by its name and its target is
  not entered, with one exception: a property behind a reference to a union with `null` is shown as
  the other member of that union, and that member is entered.  Where nothing is composed, every
  other step goes inside the schema.  So rendering is endless if and only if it comes by such a
  member from which it leads back to the same member.
-/
import Mathlib.Data.Fintype.Card
import Mathlib.Data.Set.Finite.Basic
import TypedClient.Proofs.Fragment.Ending
import TypedClient.Proofs.Schema.LoneAllOf

namespace TypedClient

open Relation

variable {document : Json} {registry : Registry} {requests : List Registry.Request}

/-! ## What a step enters -/

/-- A reference leads to a union of the node with `null`, so that a property behind the reference is
    shown as the node. -/
def Unveiled (registry : Registry) (document : Json) (node : SchemaNode) : Prop :=
  ∃ reference target, (registry.target? reference).or
      ((Reference.resolveNode document reference).bind SchemaNode.toSchema?) = some target ∧
    target.withoutNull? = some node

/-- The node stands inside the schema, or inside a node that does. -/
def Schema.HoldsDeep (schema : Schema) (node : SchemaNode) : Prop :=
  schema.Holds node ∨
    ∃ held own, schema.Holds held ∧ held.toSchema? = some own ∧ own.Holds node

namespace Schema

variable {schema : Schema} {name : Option String} {position : Position}

theorem holds_of_unionMembers? {members : List SchemaNode} {member : SchemaNode}
    (h : schema.unionMembers? = some members) (hmember : member ∈ members) :
    schema.Holds member := by
  rcases Option.or_eq_some_iff.mp h with h | ⟨-, h⟩
  · exact .of_anyOf h hmember
  · exact .of_oneOf h hmember

theorem holds_of_withoutNull? {other : SchemaNode} (h : schema.withoutNull? = some other) :
    schema.Holds other := by
  obtain ⟨members, hmembers, hother⟩ := mem_of_withoutNull? h
  exact holds_of_unionMembers? hmembers hother

theorem holds_of_mem_typeParts {type : String} {part : Part}
    (h : part ∈ (schema.typeParts type).2) : schema.Holds part.1 := by
  rcases mem_typeParts h with ⟨-, h⟩ | h
  · exact .additional (mem_recordParts h).2
  · obtain ⟨-, h⟩ := mem_arrayParts h
    split at h
    · next item hitem =>
      obtain rfl := List.mem_singleton.mp h
      exact .item hitem
    · next items hitems =>
      obtain ⟨item, hitem, rfl⟩ := List.mem_map.mp h
      exact .position hitems hitem
    · cases h

/-- A property is rendered from a node inside the object, or from an unveiled one without a name. -/
theorem propertyPart_cases {properties : Keyed SchemaNode}
    (hproperties : schema.properties = some properties) {property : String × SchemaNode}
    (hmem : property ∈ properties) :
    (Unveiled registry document (propertyPart registry document name property).1 ∧
        (propertyPart registry document name property).2 = none) ∨
      schema.HoldsDeep (propertyPart registry document name property).1 := by
  have hholds : schema.Holds property.2 := .property hproperties hmem
  unfold propertyPart
  dsimp only
  split
  · next other hother =>
    obtain ⟨target, htarget, hother⟩ := Option.bind_eq_some_iff.mp hother
    -- Without a reference, and where it leads nowhere, the property describes itself.
    have hown : property.2.toSchema? = some target → schema.HoldsDeep other := fun hself =>
      Or.inr ⟨property.2, target, hholds, hself, holds_of_withoutNull? hother⟩
    unfold Fragment.annotated? at htarget
    split at htarget
    · next reference href =>
      rw [← Option.or_assoc] at htarget
      rcases Option.or_eq_some_iff.mp htarget with htarget | ⟨-, hself⟩
      · refine Or.inl ⟨⟨reference, target, htarget, hother⟩, ?_⟩
        obtain ⟨own, hown, href⟩ := Option.bind_eq_some_iff.mp href
        rw [hown, Option.any_some, href]
        rfl
      · exact Or.inr (hown hself)
    · exact Or.inr (hown htarget)
  · exact Or.inr (Or.inl hholds)

/-- Every position that a fragment is put together from is inside the schema, or unveiled. -/
theorem part_cases {sure : Bool} {parts : List Part}
    (houtline : schema.outline registry document name position = .parts sure parts) {part : Part}
    (hmem : part ∈ parts) :
    (Unveiled registry document part.1 ∧ part.2 = none) ∨ schema.HoldsDeep part.1 := by
  unfold outline at houtline
  cases hproperties : schema.properties with
  | some properties =>
    rw [hproperties] at houtline
    cases houtline
    obtain ⟨property, hproperty, rfl⟩ := List.mem_map.mp hmem
    exact propertyPart_cases hproperties hproperty
  | none =>
    refine Or.inr (Or.inl ?_)
    rw [hproperties] at houtline
    dsimp only at houtline
    split at houtline
    · cases houtline
      cases hmem
    · split at houtline
      · cases houtline
        exact .additional (mem_recordParts hmem).2
      · split at houtline
        · cases houtline
          cases hmem
        · cases houtline
          cases hmem
        · cases houtline
        · cases houtline
          cases hmem
        · split at houtline
          · cases houtline
            cases hmem
          · cases houtline
        · unfold bareOutline at houtline
          split at houtline
          · next members hmembers =>
            cases houtline
            obtain ⟨member, hmember, rfl⟩ := List.mem_map.mp hmem
            exact holds_of_unionMembers? hmembers (mem_of_mem_literalBranches hmember)
          · cases houtline
            exact holds_of_mem_typeParts hmem
          · cases houtline
            obtain ⟨type, -, hmem⟩ := List.mem_flatMap.mp hmem
            exact holds_of_mem_typeParts hmem
          · cases houtline
            cases hmem

/-- Only a schema with an `allOf` is flattened. -/
theorem allOf_ne_none_of_outline {child : Option String}
    (houtline : schema.outline registry document name position = .composition child) :
    schema.allOf ≠ none := by
  intro hallOf
  unfold outline at houtline
  split at houtline
  · cases houtline
  · split at houtline
    · cases houtline
    · split at houtline
      · cases houtline
      · rw [hallOf] at houtline
        split at houtline
        · cases houtline
        · cases houtline
        · cases houtline
        · next h => cases h
        · next h => cases h
        · unfold bareOutline at houtline
          split at houtline <;> cases houtline

/-- Going inside keeps that nothing is composed, and leads to smaller nodes. -/
theorem HoldsDeep.smaller {bound : Nat} {node : SchemaNode} (h : schema.HoldsDeep node)
    (hlone : schema.LoneAllOf) (hbelow : Below bound schema) :
    node.LoneAllOf ∧ sizeOf node < bound := by
  rcases h with h | ⟨held, own, hheld, hown, h⟩
  · exact ⟨SchemaNode.loneAllOf_of_holds hlone h, hbelow node h⟩
  · have hloneOwn : own.LoneAllOf := SchemaNode.loneAllOf_of_holds hlone hheld own hown
    refine ⟨SchemaNode.loneAllOf_of_holds hloneOwn h, ?_⟩
    have hinner := SchemaNode.sizeOf_lt_of_holds hown h
    have houter := hbelow held hheld
    omega

end Schema

/-! ## Going inside ends -/

/-- The point of an unveiled node: it has no name. -/
def Point.unveiled (node : SchemaNode) : Point where
  node := node
  name := none
  position := .nested

theorem grounded_bool {admits : Bool} {name : Option String} {position : Position} :
    Point.Grounded registry document ⟨.bool admits, name, position⟩ :=
  .intro _ fun _ h => by cases h

/-- Where nothing is composed, an endless chain comes by an unveiled node. -/
theorem grounded_of_unveiled (bound : Nat) :
    ∀ (schema : Schema) (name : Option String) (position : Position),
      schema.cleanup.LoneAllOf → Schema.Below bound schema.cleanup →
      (∀ node, Unveiled registry document node →
        TransGen (RenderStep registry document) ⟨.object schema, name, position⟩
          (Point.unveiled node) → (Point.unveiled node).Grounded registry document) →
      Point.Grounded registry document ⟨.object schema, name, position⟩ := by
  induction bound using Nat.strongRecOn with
  | ind bound ih =>
    -- A position that the fragment is put together from is unveiled, or smaller.
    have hpart : ∀ (schema : Schema) (name : Option String) (position : Position)
        (sure : Bool) (parts : List Part) (part : Part), schema.cleanup.LoneAllOf →
        Schema.Below bound schema.cleanup →
        (∀ node, Unveiled registry document node →
          TransGen (RenderStep registry document) ⟨.object schema, name, position⟩
            (Point.unveiled node) → (Point.unveiled node).Grounded registry document) →
        schema.cleanup.outline registry document name position = .parts sure parts →
        part ∈ parts → Point.Grounded registry document ⟨part.1, part.2, .nested⟩ := by
      intro schema name position sure parts part hlone hbelow hunveiled houtline hmem
      have hstep : RenderStep registry document ⟨.object schema, name, position⟩
          ⟨part.1, part.2, .nested⟩ := .part houtline hmem
      rcases Schema.part_cases houtline hmem with ⟨hnode, hnone⟩ | hinside
      · rw [hnone] at hstep ⊢
        exact hunveiled part.1 hnode (.single hstep)
      · obtain ⟨hlonePart, hsize⟩ := hinside.smaller hlone hbelow
        obtain ⟨node, child⟩ := part
        cases node with
        | bool admits => exact grounded_bool
        | object inner =>
          refine ih _ hsize inner child .nested (hlonePart inner.cleanup rfl)
            (fun node hnode => Schema.sizeOf_lt_of_holds_cleanup hnode) fun node hnode hchain => ?_
          exact hunveiled node hnode (.head hstep hchain)
    intro schema name position hlone hbelow hunveiled
    refine .intro _ fun next hstep => ?_
    cases hstep with
    | @part _ _ _ sure parts part outline mem =>
      exact hpart schema name position sure parts part hlone hbelow hunveiled outline mem
    | @composition _ merged _ child _ outline flattens =>
      -- What a composition is flattened to is no composition and has nothing more inside.
      have hclean := cleanup_of_flattens flattens
      have hallOf : merged.allOf = none := (flattens.clean (Schema.normal_cleanup schema)).2
      have hloneMerged := SchemaNode.loneAllOf_of_flattens hlone (Schema.normal_cleanup schema)
        flattens
      have hbelowMerged : Schema.Below bound merged := fun node hnode =>
        hbelow node (hlone.holds_of_flattens (Schema.normal_cleanup schema) flattens hnode)
      refine .intro _ fun next hnext => ?_
      cases hnext with
      | @part _ _ _ sure parts part houtline mem =>
        rw [← hclean] at hloneMerged hbelowMerged
        refine hpart merged child position sure parts part hloneMerged hbelowMerged ?_ houtline mem
        exact fun node hnode hchain =>
          hunveiled node hnode (.head (.composition outline flattens) hchain)
      | composition houtline =>
        rw [hclean] at houtline
        exact absurd hallOf (Schema.allOf_ne_none_of_outline houtline)

/-! ## Coming back -/

/-- Rendering leads from the unveiled node back to itself. -/
def Cycles (registry : Registry) (document : Json) (node : SchemaNode) : Prop :=
  Unveiled registry document node ∧
    TransGen (RenderStep registry document) (Point.unveiled node) (Point.unveiled node)

/-- There are finitely many unveiled nodes: one at most for each target. -/
theorem finite_unveiled (registry : Registry) (document : Json) :
    {node | Unveiled registry document node}.Finite := by
  have htargets := List.finite_toSet
    (((registry.resolved.map (·.2)) ++ document.parts.filterMap fun value =>
      (SchemaNode.ofJson value).toSchema?).filterMap Schema.withoutNull?)
  refine htargets.subset ?_
  rintro node ⟨reference, target, htarget, hnode⟩
  refine List.mem_filterMap.mpr ⟨target, List.mem_append.mpr ?_, hnode⟩
  rcases Option.or_eq_some_iff.mp htarget with hkept | ⟨-, hfound⟩
  · exact Or.inl (List.mem_map.mpr ⟨(reference, target), Keyed.mem_of_get? hkept, rfl⟩)
  · obtain ⟨found, hfound, htarget⟩ := Option.bind_eq_some_iff.mp hfound
    obtain ⟨value, hvalue, rfl⟩ := Option.map_eq_some_iff.mp hfound
    exact Or.inr (List.mem_filterMap.mpr
      ⟨value, Reference.mem_parts_of_resolve hvalue, htarget⟩)

/-- What rendering a point comes by is grounded with it. -/
theorem Point.Grounded.of_reaches {point next : Point} (h : point.Grounded registry document)
    (hreaches : ReflTransGen (RenderStep registry document) point next) :
    next.Grounded registry document := by
  induction hreaches with
  | refl => exact h
  | tail _ hstep ih => exact ih.inv hstep

/-- Rendering a grounded point does not come back to it. -/
theorem Point.Grounded.not_back {point : Point} (h : point.Grounded registry document) :
    ¬ TransGen (RenderStep registry document) point point := by
  intro hback
  have hswap := transGen_swap.mpr hback
  have hchains := Acc.transGen h
  induction hchains with
  | intro point _ ih => exact ih point hswap h hback hswap

/-- The unveiled nodes that rendering a point comes by. -/
def UnveiledFrom (registry : Registry) (document : Json) (point : Point) : Type :=
  {node // Unveiled registry document node ∧
    ReflTransGen (RenderStep registry document) point (Point.unveiled node)}

/-- Rendering leads from one unveiled node to another. -/
def UnveiledFrom.Below (registry : Registry) (document : Json) (point : Point)
    (inner outer : UnveiledFrom registry document point) : Prop :=
  TransGen (RenderStep registry document) (Point.unveiled outer.1) (Point.unveiled inner.1)

/-- Without a cycle there is no endless chain of unveiled nodes, since there are finitely many. -/
theorem UnveiledFrom.wellFounded_below {point : Point}
    (hcycles : ∀ node, ReflTransGen (RenderStep registry document) point (Point.unveiled node) →
      ¬ Cycles registry document node) :
    WellFounded (UnveiledFrom.Below registry document point) := by
  have hfinite : Finite (UnveiledFrom registry document point) :=
    ((finite_unveiled registry document).subset fun node h => h.1).to_subtype
  have htrans : IsTrans _ (UnveiledFrom.Below registry document point) :=
    ⟨fun _ _ _ hfirst hsecond => hsecond.trans hfirst⟩
  have hirrefl : Std.Irrefl (UnveiledFrom.Below registry document point) :=
    ⟨fun node hback => hcycles node.1 node.2.2 ⟨node.2.1, hback⟩⟩
  exact Finite.wellFounded_of_trans_of_irrefl _

section

variable {node : SchemaNode} {name : Option String} {position : Position}

/-- Where nothing is composed, an endless chain comes by an unveiled node. -/
theorem grounded_of_unveiled_grounded (hnode : node.LoneAllOf)
    (hunveiled : ∀ other, Unveiled registry document other →
      TransGen (RenderStep registry document) ⟨node, name, position⟩ (Point.unveiled other) →
        (Point.unveiled other).Grounded registry document) :
    Point.Grounded registry document ⟨node, name, position⟩ := by
  cases node with
  | bool admits => exact grounded_bool
  | object schema =>
    exact grounded_of_unveiled _ schema name position (hnode schema.cleanup rfl)
      (fun _ h => Schema.sizeOf_lt_of_holds_cleanup h) hunveiled

/-- Where nothing is composed, no endless chain starts at a point if and only if rendering it does
    not come by an unveiled node from which it leads back to that node. -/
theorem grounded_iff_not_cycles
    (htargets : ∀ node, Unveiled registry document node → node.LoneAllOf)
    (hnode : node.LoneAllOf) :
    Point.Grounded registry document ⟨node, name, position⟩ ↔
      ∀ other, ReflTransGen (RenderStep registry document) ⟨node, name, position⟩
        (Point.unveiled other) → ¬ Cycles registry document other := by
  constructor
  · rintro h other hreaches ⟨-, hcycle⟩
    exact (h.of_reaches hreaches).not_back hcycle
  · intro hcycles
    have hunveiled : ∀ outer : UnveiledFrom registry document ⟨node, name, position⟩,
        (Point.unveiled outer.1).Grounded registry document := by
      intro outer
      induction outer using (UnveiledFrom.wellFounded_below hcycles).induction with
      | h outer ih =>
        refine grounded_of_unveiled_grounded (htargets outer.1 outer.2.1) ?_
        intro other hother hchain
        exact ih ⟨other, hother, outer.2.2.trans hchain.to_reflTransGen⟩ hchain
    refine grounded_of_unveiled_grounded hnode fun other hother hchain => ?_
    exact hunveiled ⟨other, hother, hchain.to_reflTransGen⟩

end

/-! ## Registries -/

namespace Registry

/-- Walks that start from nodes that compose nothing, in a document that composes nothing, come by
    such nodes only. -/
theorem Reached.loneAllOf {node : SchemaNode} {place : Option String}
    (h : Reached document requests node place) (hdocument : document.LoneAllOf)
    (hrequests : ∀ request ∈ requests, request.root.LoneAllOf) : node.LoneAllOf := by
  induction h with
  | shape mem _ stores => exact stores.loneAllOf (hrequests _ mem)
  | answered _ _ resolves stores =>
    exact stores.loneAllOf (Reference.loneAllOf_of_resolveNode hdocument resolves)
  | target _ _ _ resolves stores _ =>
    exact stores.loneAllOf (Reference.loneAllOf_of_resolveNode hdocument resolves)
  | position _ read visit mem ih =>
    exact SchemaNode.loneAllOf_of_holds (ih _ read) (Schema.holds_of_visit visit mem)
  | composition _ read _ flattens ih =>
    have hnormal := SchemaNode.normal_of_toSchema? read
    have hmerged := SchemaNode.loneAllOf_of_flattens (ih _ read) hnormal flattens
    exact SchemaNode.loneAllOf_object hmerged
  | congr _ same ih => exact fun schema hschema => ih schema (same ▸ hschema)

/-- In a document that composes nothing the unveiled nodes compose nothing. -/
theorem Adds.loneAllOf_of_unveiled (h : Adds document requests registry)
    (hdocument : document.LoneAllOf) {node : SchemaNode}
    (hnode : Unveiled registry document node) : node.LoneAllOf := by
  obtain ⟨reference, target, htarget, hnode⟩ := hnode
  have hlone : target.LoneAllOf := by
    rcases Option.or_eq_some_iff.mp htarget with hkept | ⟨-, hfound⟩
    · obtain ⟨-, found, hfound, hstores⟩ := h.sound.kept reference target hkept
      have hfound := Reference.loneAllOf_of_resolveNode hdocument hfound
      exact hstores.loneAllOf hfound target (SchemaNode.toSchema?_of_normal hstores.clean.1)
    · obtain ⟨found, hfound, htarget⟩ := Option.bind_eq_some_iff.mp hfound
      exact Reference.loneAllOf_of_resolveNode hdocument hfound target htarget
  exact SchemaNode.loneAllOf_of_holds hlone (Schema.holds_of_withoutNull? hnode)

/-- All entries are declared with some fuel when rendering each one ends. -/
theorem exists_declareAll_iff {spelling : Spelling} :
    (∃ fuel texts, registry.declareAll document fuel spelling = some texts) ↔
      ∀ entry ∈ registry.entries, (Point.ofEntry entry).Ends registry document := by
  have hdeclare : ∀ fuel entry, registry.declare? document fuel spelling entry =
      (Fragment.ofNode registry document fuel (Point.ofEntry entry).node
        (Point.ofEntry entry).name (Point.ofEntry entry).position).map (Option.map fun fragment =>
          spelling.declaration (declarationOf spelling entry fragment)) := by
    intro fuel entry
    show (registry.fragmentOf document fuel entry).bind _ = _
    exact (Option.map_eq_bind ..).symm
  constructor
  · rintro ⟨fuel, texts, h⟩ entry hentry
    obtain ⟨answers, hanswers, -⟩ := Option.bind_eq_some_iff.mp h
    obtain ⟨answer, -, hanswer⟩ := exists_of_forall₂_left (mapM_eq_some_iff.mp hanswers) hentry
    rw [hdeclare] at hanswer
    obtain ⟨fragment, hfragment, -⟩ := Option.map_eq_some_iff.mp hanswer
    exact ⟨fuel, fragment, hfragment⟩
  · intro hends
    have hmono : ∀ fuel more entry, fuel ≤ more →
        Refines (registry.declare? document fuel spelling entry)
          (registry.declare? document more spelling entry) := by
      intro fuel more entry hle
      rw [hdeclare, hdeclare]
      exact (Fragment.ofNode_refines hle _ _ _).map _
    obtain ⟨fuel, answers, hanswers⟩ := exists_fuel_mapM hmono fun entry hentry => by
      obtain ⟨fuel, fragment, hfragment⟩ := hends entry hentry
      refine ⟨fuel, fragment.map fun fragment =>
        spelling.declaration (declarationOf spelling entry fragment), ?_⟩
      rw [hdeclare, hfragment]
      rfl
    exact ⟨fuel, _, Option.bind_eq_some_iff.mpr ⟨answers, hanswers, rfl⟩⟩

end Registry

/-- In a document in which nothing is composed, rendering an entry ends if and only if it does not
    come by an unveiled node from which it leads back to that node; and all entries are declared,
    with some fuel, if and only if rendering none of them does. -/
theorem rendering_ends_iff_not_cycles (hadds : Registry.Adds document requests registry)
    (hdocument : document.LoneAllOf) (hrequests : ∀ request ∈ requests, request.root.LoneAllOf) :
    (∀ entry ∈ registry.entries, (Point.ofEntry entry).Ends registry document ↔
      ∀ node, ReflTransGen (RenderStep registry document) (Point.ofEntry entry)
        (Point.unveiled node) → ¬ Cycles registry document node) ∧
    ∀ spelling, (∃ fuel texts, registry.declareAll document fuel spelling = some texts) ↔
      ∀ node, Rendered registry document (Point.unveiled node) →
        ¬ Cycles registry document node := by
  have hentry : ∀ entry ∈ registry.entries, (Point.ofEntry entry).Ends registry document ↔
      ∀ node, ReflTransGen (RenderStep registry document) (Point.ofEntry entry)
        (Point.unveiled node) → ¬ Cycles registry document node := by
    intro entry hmem
    have hlone : entry.2.schema.LoneAllOf :=
      (hadds.sound.entry entry hmem).reached.loneAllOf hdocument hrequests
    rw [ends_iff_grounded]
    exact grounded_iff_not_cycles (fun _ => hadds.loneAllOf_of_unveiled hdocument) hlone
  refine ⟨hentry, fun spelling => ?_⟩
  rw [Registry.exists_declareAll_iff]
  constructor
  · rintro hends node ⟨entry, hmem, hreaches⟩
    exact (hentry entry hmem).mp (hends entry hmem) node hreaches
  · intro hcycles entry hmem
    exact (hentry entry hmem).mpr fun node hreaches => hcycles node ⟨entry, hmem, hreaches⟩

/-! ### A linked list -/

/-- The reference to the list. -/
def linkedText : String := "#/components/schemas/A"

/-- A document with a list: a link to the rest of the list, or `null`. -/
def linked : Json :=
  .obj [("components", .obj [("schemas", .obj [("A", .obj [("anyOf", .arr [
    .obj [("type", .str "object"),
      ("properties", .obj [("next", .obj [("$ref", .str linkedText)])])],
    .obj [("type", .str "null")]])])])])]

/-- The rest of a list. -/
def linkedRest : Schema where
  ref := some linkedText

/-- The schema of a link. -/
def linkedItem : Schema where
  type := some (.single "object")
  properties := some [("next", .object linkedRest)]

/-- The schema of `null`. -/
def linkedEnd : Schema where
  type := some (.single "null")

/-- The schema of the list. -/
def linkedUnion : Schema where
  anyOf := some [.object linkedItem, .object linkedEnd]

/-- The call that registers the list. -/
def linkedRequest : Registry.Request := ⟨"A", .object linkedRest, false⟩

/-- The only entry once the list was registered. -/
def linkedEntry : String × Entry := ("A", ⟨.object linkedUnion, true, false⟩)

/-- The registry once the list was registered. -/
def linkedRegistry : Registry where
  entries := [linkedEntry]
  visited := [linkedText]
  resolved := [(linkedText, linkedUnion)]

set_option maxRecDepth 20000 in
theorem addAll_linked :
    Registry.addAll linked 16 .empty [linkedRequest] = some linkedRegistry := by
  with_unfolding_all rfl

theorem toSchema?_linkedRest : (SchemaNode.object linkedRest).toSchema? = some linkedRest :=
  SchemaNode.toSchema?_of_normal (Schema.normal_of_plain rfl rfl rfl nofun)

theorem toSchema?_linkedItem : (SchemaNode.object linkedItem).toSchema? = some linkedItem :=
  SchemaNode.toSchema?_of_normal (Schema.normal_of_plain rfl rfl rfl nofun)

theorem toSchema?_linkedEnd : (SchemaNode.object linkedEnd).toSchema? = some linkedEnd :=
  SchemaNode.toSchema?_of_normal (Schema.normal_of_plain rfl rfl rfl nofun)

theorem cleanup_linkedUnion : linkedUnion.cleanup = linkedUnion := by
  refine Schema.cleanup_of_normal ⟨fun composition _ node h => ?_, nofun, nofun⟩
  cases composition with
  | allOf => cases h
  | anyOf => cases h
  | oneOf => cases h

theorem withoutNull?_linkedUnion : linkedUnion.withoutNull? = some (.object linkedItem) := by
  have hitem : (SchemaNode.object linkedItem).toSchema?.any Schema.isNull = false := by
    rw [toSchema?_linkedItem]
    rfl
  have hend : (SchemaNode.object linkedEnd).toSchema?.any Schema.isNull = true := by
    rw [toSchema?_linkedEnd]
    rfl
  have hmembers : linkedUnion.unionMembers? =
      some [.object linkedItem, .object linkedEnd] := rfl
  simp only [Schema.withoutNull?, hmembers, hitem, hend]

/-- A link stands behind the reference, beside `null`. -/
theorem unveiled_linkedItem : Unveiled linkedRegistry linked (.object linkedItem) :=
  ⟨linkedText, linkedUnion, by with_unfolding_all rfl, withoutNull?_linkedUnion⟩

/-- The property of a link is rendered as a link. -/
theorem renderStep_linkedItem {name : Option String} :
    RenderStep linkedRegistry linked ⟨.object linkedItem, name, .nested⟩
      (Point.unveiled (.object linkedItem)) := by
  have hannotated : Fragment.annotated? linkedRegistry linked (some linkedRest) =
      some linkedUnion := by with_unfolding_all rfl
  have houtline : linkedItem.cleanup.outline linkedRegistry linked name .nested =
      .parts false [(.object linkedItem, none)] := by
    rw [Option.some.inj toSchema?_linkedItem]
    change Outline.parts false [Schema.propertyPart _ _ _ ("next", .object linkedRest)] = _
    unfold Schema.propertyPart
    dsimp only
    rw [toSchema?_linkedRest, hannotated, Option.bind_some, withoutNull?_linkedUnion]
    rfl
  exact .part houtline (List.mem_singleton.mpr rfl)

/-- Rendering the list comes to a link, and from there back to it. -/
theorem linked_never_rendered :
    Registry.Adds linked [linkedRequest] linkedRegistry ∧ linked.LoneAllOf ∧
    linkedRequest.root.LoneAllOf ∧ Cycles linkedRegistry linked (.object linkedItem) ∧
    ¬ (Point.ofEntry linkedEntry).Ends linkedRegistry linked ∧
    ∀ fuel spelling, linkedRegistry.declareAll linked fuel spelling = none := by
  have hadds : Registry.Adds linked [linkedRequest] linkedRegistry :=
    Registry.adds_of_addAll addAll_linked
  have hdocument : linked.LoneAllOf := Json.loneAllOf_of_all (by decide +kernel)
  have hroot : linkedRequest.root.LoneAllOf :=
    @SchemaNode.loneAllOf_ofJson (.obj [("$ref", .str linkedText)])
      (Json.loneAllOf_of_all (by decide +kernel))
  have hcycles : Cycles linkedRegistry linked (.object linkedItem) :=
    ⟨unveiled_linkedItem, .single renderStep_linkedItem⟩
  have hfirst : RenderStep linkedRegistry linked (Point.ofEntry linkedEntry)
      ⟨.object linkedItem, some "AEnum", .nested⟩ := by
    have houtline : linkedUnion.cleanup.outline linkedRegistry linked (some "A")
        (Point.ofEntry linkedEntry).position =
          .parts false [(.object linkedItem, some "AEnum"),
            (.object linkedEnd, some "AEnum")] := by
      rw [cleanup_linkedUnion]
      with_unfolding_all rfl
    exact .part houtline (List.mem_cons_self ..)
  have hreaches : ReflTransGen (RenderStep linkedRegistry linked) (Point.ofEntry linkedEntry)
      (Point.unveiled (.object linkedItem)) :=
    (ReflTransGen.single hfirst).tail renderStep_linkedItem
  have hmem : linkedEntry ∈ linkedRegistry.entries := List.mem_singleton.mpr rfl
  obtain ⟨hends, hdeclared⟩ := rendering_ends_iff_not_cycles hadds hdocument
    fun _ hrequest => List.mem_singleton.mp hrequest ▸ hroot
  refine ⟨hadds, hdocument, hroot, hcycles, fun h => (hends _ hmem).mp h _ hreaches hcycles, ?_⟩
  intro fuel spelling
  by_contra hsome
  obtain ⟨texts, htexts⟩ := Option.ne_none_iff_exists'.mp hsome
  exact (hdeclared spelling).mp ⟨fuel, texts, htexts⟩ _ ⟨_, hmem, hreaches⟩ hcycles

end TypedClient
