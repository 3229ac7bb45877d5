/-
  TypedClient.Proofs.Fragment.Ending

  When rendering ends.  Fuel only bounds the recursion: more of it keeps every fragment, and each
  step of rendering takes one unit at least.  So rendering a point ends if and only if no endless
  chain of steps starts there, and what is left to tell is which chains there are.
-/
import TypedClient.Proofs.Fragment.Coverage

namespace TypedClient

open Relation

namespace Fragment

/-! ## More fuel -/

section

variable {shorter longer : Renderer} {schema : Schema}

/-- What the positions answer with less fuel they answer with more. -/
theorem ofUnion_refines (h : ∀ node name, Refines (shorter node name) (longer node name))
    (members : List SchemaNode) (name : Option String) :
    Refines (ofUnion shorter members name) (ofUnion longer members name) :=
  (Refines.mapM (fun node => h node (name.map Text.enumChildName)) _).bind
    fun _ _ => Refines.refl _

theorem ofRecord_refines (h : ∀ node name, Refines (shorter node name) (longer node name)) :
    Refines (ofRecord shorter schema) (ofRecord longer schema) := by
  unfold ofRecord
  split
  · exact Refines.refl _
  · exact Refines.refl _
  · exact Refines.refl _
  · exact (h _ none).bind fun _ _ => Refines.refl _

theorem ofArray_refines (h : ∀ node name, Refines (shorter node name) (longer node name)) :
    Refines (ofArray shorter schema) (ofArray longer schema) := by
  unfold ofArray
  dsimp only
  split
  · exact Refines.refl _
  · exact Refines.refl _
  · exact (h _ none).bind fun _ _ => Refines.refl _
  · exact (ofUnion_refines h _ none).bind fun _ _ => Refines.refl _

theorem ofType_refines (h : ∀ node name, Refines (shorter node name) (longer node name))
    (type : String) : Refines (ofType shorter schema type) (ofType longer schema type) := by
  unfold ofType
  split
  · exact Refines.refl _
  · exact Refines.refl _
  · exact Refines.refl _
  · exact Refines.refl _
  · exact Refines.refl _
  · exact ofRecord_refines h
  · exact ofArray_refines h
  · exact Refines.refl _

theorem ofObject_refines (h : ∀ node name, Refines (shorter node name) (longer node name))
    (registry : Registry) (document : Json) (properties : Keyed SchemaNode) (name : Option String)
    (position : Position) :
    Refines (ofObject shorter registry document schema properties name position)
      (ofObject longer registry document schema properties name position) := by
  refine Refines.bind (Refines.mapM (fun property => ?_) properties) fun _ _ => Refines.refl _
  dsimp only
  rw [ofProperty_eq_map, ofProperty_eq_map]
  exact (h _ _).map _

end

/-- One more unit of fuel keeps the fragment of a node and of a schema. -/
theorem ofNode_refines_succ (registry : Registry) (document : Json) (fuel : Nat) :
    (∀ node name position, Refines (ofNode registry document fuel node name position)
      (ofNode registry document (fuel + 1) node name position)) ∧
    (∀ schema name position, Refines (ofSchema registry document fuel schema name position)
      (ofSchema registry document (fuel + 1) schema name position)) := by
  induction fuel with
  | zero =>
    refine ⟨fun node name position => ?_, fun schema name position => ?_⟩
    · rw [ofNode]
      exact Refines.of_none _
    · rw [ofSchema]
      exact Refines.of_none _
  | succ fuel ih =>
    obtain ⟨ihNode, ihSchema⟩ := ih
    refine ⟨fun node name position => ?_, fun schema name position => ?_⟩
    · cases node with
      | bool admits =>
        cases admits with
        | true =>
          rw [ofNode, ofNode]
          exact Refines.refl _
        | false =>
          rw [ofNode, ofNode]
          exact Refines.refl _
      | object schema =>
        rw [ofNode, ofNode]
        exact ihSchema schema.cleanup name position
    · have hrender : ∀ node name, Refines (ofNode registry document fuel node name .nested)
          (ofNode registry document (fuel + 1) node name .nested) :=
        fun node name => ihNode node name .nested
      rw [ofSchema, ofSchema]
      dsimp only
      split
      · exact ofObject_refines hrender registry document _ name position
      · split
        · exact Refines.refl _
        · split
          · exact ofRecord_refines hrender
          · split
            · exact Refines.refl _
            · exact Refines.refl _
            · exact Refines.refl _
            · exact Refines.refl _
            · split
              · exact Refines.refl _
              · -- A composition is flattened with the fuel of the schema.
                refine Refines.bind ?_ fun merged _ =>
                  ihSchema merged (name.map Text.enumChildName) position
                exact Schema.flattenWithin_refines (Nat.le_succ fuel) [] schema
            · split
              · exact ofUnion_refines hrender _ name
              · exact ofType_refines hrender _
              · exact (Refines.mapM (ofType_refines hrender) _).bind fun _ _ => Refines.refl _
              · exact Refines.refl _

/-- More fuel keeps the fragment of a node. -/
theorem ofNode_refines {registry : Registry} {document : Json} {fuel more : Nat} (h : fuel ≤ more)
    (node : SchemaNode) (name : Option String) (position : Position) :
    Refines (ofNode registry document fuel node name position)
      (ofNode registry document more node name position) :=
  Refines.of_succ (fun fuel => (ofNode_refines_succ registry document fuel).1 node name position)
    fuel more h

/-! ## Enough fuel -/

section

variable {render : Renderer} {schema : Schema}

/-- The position has an answer. -/
def Answered (render : Renderer) (part : Part) : Prop :=
  ∃ answer, render part.1 part.2 = some answer

/-- A list of computations succeeds when each one does. -/
theorem exists_mapM {α β : Type} {f : α → Option β} {items : List α}
    (h : ∀ item ∈ items, ∃ b, f item = some b) : ∃ answers, items.mapM f = some answers := by
  obtain ⟨-, answers, hanswers⟩ := exists_fuel_mapM (fun _ _ a _ => Refines.refl (f a))
    fun item hitem => ⟨0, h item hitem⟩
  exact ⟨answers, hanswers⟩

theorem exists_ofUnion {members : List SchemaNode} {name : Option String}
    (h : ∀ part ∈ (Schema.literalBranches members).map (·, name.map Text.enumChildName),
      Answered render part) : ∃ answer, ofUnion render members name = some answer := by
  obtain ⟨answers, hanswers⟩ := exists_mapM fun member hmember =>
    h (member, name.map Text.enumChildName) (List.mem_map.mpr ⟨member, hmember, rfl⟩)
  exact ⟨_, Option.bind_eq_some_iff.mpr ⟨answers, hanswers, rfl⟩⟩

theorem exists_ofRecord (h : ∀ part ∈ schema.recordParts.2, Answered render part) :
    ∃ answer, ofRecord render schema = some answer := by
  unfold Schema.recordParts at h
  unfold ofRecord
  cases hadditional : schema.additionalProperties with
  | none => exact ⟨_, rfl⟩
  | some node =>
    cases node with
    | bool admits => cases admits <;> exact ⟨_, rfl⟩
    | object values =>
      rw [hadditional] at h
      obtain ⟨answer, hanswer⟩ := h (.object values, none) (List.mem_singleton.mpr rfl)
      exact ⟨_, Option.bind_eq_some_iff.mpr ⟨answer, hanswer, rfl⟩⟩

theorem exists_ofArray (h : ∀ part ∈ schema.arrayParts.2, Answered render part) :
    ∃ answer, ofArray render schema = some answer := by
  unfold Schema.arrayParts at h
  unfold ofArray
  cases hitems : schema.items with
  | none => exact ⟨_, rfl⟩
  | some items =>
    rw [hitems] at h
    cases items with
    | single item =>
      cases item with
      | bool admits =>
        cases admits with
        | false => exact ⟨_, rfl⟩
        | true =>
          obtain ⟨answer, hanswer⟩ := h (.bool true, none) (List.mem_singleton.mpr rfl)
          exact ⟨_, Option.bind_eq_some_iff.mpr ⟨answer, hanswer, rfl⟩⟩
      | object item =>
        obtain ⟨answer, hanswer⟩ := h (.object item, none) (List.mem_singleton.mpr rfl)
        exact ⟨_, Option.bind_eq_some_iff.mpr ⟨answer, hanswer, rfl⟩⟩
    | tuple items =>
      have hitems : ∀ part ∈ (Schema.literalBranches items).map
          (·, (none : Option String).map Text.enumChildName), Answered render part := h
      obtain ⟨answer, hanswer⟩ := exists_ofUnion hitems
      exact ⟨_, Option.bind_eq_some_iff.mpr ⟨answer, hanswer, rfl⟩⟩

theorem exists_ofType {type : String}
    (h : ∀ part ∈ (schema.typeParts type).2, Answered render part) :
    ∃ answer, ofType render schema type = some answer := by
  unfold Schema.typeParts at h
  unfold ofType
  split
  · exact ⟨_, rfl⟩
  · exact ⟨_, rfl⟩
  · exact ⟨_, rfl⟩
  · exact ⟨_, rfl⟩
  · exact ⟨_, rfl⟩
  · exact exists_ofRecord h
  · exact exists_ofArray h
  · exact ⟨_, rfl⟩

theorem exists_ofObject {registry : Registry} {document : Json} {properties : Keyed SchemaNode}
    {name : Option String} {position : Position}
    (h : ∀ part ∈ properties.map (Schema.propertyPart registry document name),
      Answered render part) :
    ∃ answer, ofObject render registry document schema properties name position = some answer := by
  have heach : ∀ property ∈ properties, ∃ answer, ofProperty render registry document property.1
      property.2 (name.map (· ++ Text.identifier property.1))
      ((schema.required.getD []).contains property.1) = some answer := by
    intro property hproperty
    obtain ⟨answer, hanswer⟩ := h _ (List.mem_map.mpr ⟨property, hproperty, rfl⟩)
    rw [ofProperty_eq_map, hanswer]
    exact ⟨_, rfl⟩
  obtain ⟨answers, hanswers⟩ := exists_mapM heach
  exact ⟨_, Option.bind_eq_some_iff.mpr ⟨answers, hanswers, rfl⟩⟩

end

/-- A schema is rendered with one more unit of fuel than all it is rendered from. -/
theorem exists_ofSchema {registry : Registry} {document : Json} {fuel : Nat} {schema : Schema}
    {name : Option String} {position : Position}
    (h : match schema.outline registry document name position with
      | .parts _ parts => ∀ part ∈ parts,
          Answered (fun node name => ofNode registry document fuel node name .nested) part
      | .reference _ => True
      | .composition child => ∃ merged answer, schema.resolveAllOf? document fuel = some merged ∧
          ofSchema registry document fuel merged child position = some answer) :
    ∃ answer, ofSchema registry document (fuel + 1) schema name position = some answer := by
  rw [ofSchema]
  dsimp only
  unfold Schema.outline at h
  cases hproperties : schema.properties with
  | some properties =>
    rw [hproperties] at h
    exact exists_ofObject h
  | none =>
  rw [hproperties] at h
  dsimp only at h ⊢
  -- The cases come in the sequence of the dispatch, each where those before fail.
  by_cases hnull : (schema.typeName? == some "null") = true
  · rw [if_pos hnull]
    exact ⟨_, rfl⟩
  rw [if_neg hnull] at h ⊢
  by_cases hobject : (schema.typeName? == some "object") = true
  · rw [if_pos hobject] at h ⊢
    exact exists_ofRecord h
  rw [if_neg hobject] at h ⊢
  cases hconst : schema.const with
  | some value => exact ⟨_, rfl⟩
  | none =>
  cases henum : schema.enum with
  | some values => exact ⟨_, rfl⟩
  | none =>
  cases href : schema.ref with
  | some reference => exact ⟨_, rfl⟩
  | none =>
  rw [hconst, henum, href] at h
  cases hallOf : schema.allOf with
  | some members =>
    rw [hallOf] at h
    cases members with
    | nil => exact ⟨_, rfl⟩
    | cons member rest =>
      dsimp only at h ⊢
      cases hchild : (if position == .nested then
          (name.map Text.enumChildName).filter registry.has else none) with
      | some child => exact ⟨_, rfl⟩
      | none =>
        have hdeclared : Schema.declaredChild? registry name position = none := hchild
        rw [hdeclared, Option.isSome_none, if_neg Bool.false_ne_true] at h
        obtain ⟨merged, answer, hmerged, hanswer⟩ := h
        exact ⟨answer, Option.bind_eq_some_iff.mpr ⟨merged, hmerged, hanswer⟩⟩
  | none =>
  rw [hallOf] at h
  dsimp only at h ⊢
  unfold Schema.bareOutline at h
  cases hmembers : schema.unionMembers? with
  | some members =>
    rw [hmembers] at h
    exact exists_ofUnion h
  | none =>
  rw [hmembers] at h
  cases htype : schema.type with
  | none => exact ⟨_, rfl⟩
  | some type =>
    rw [htype] at h
    cases type with
    | single type => exact exists_ofType h
    | several types =>
      cases types with
      | nil => exact ⟨_, rfl⟩
      | cons type types =>
        obtain ⟨answers, hanswers⟩ := exists_mapM fun type htype =>
          exists_ofType fun part hpart => h part (List.mem_flatMap.mpr ⟨type, htype, hpart⟩)
        exact ⟨_, Option.bind_eq_some_iff.mpr ⟨answers, hanswers, rfl⟩⟩

end Fragment

/-! ## Endless chains -/

variable {registry : Registry} {document : Json} {point next : Point}

/-- Rendering the point comes to an end: some fuel is enough. -/
def Point.Ends (registry : Registry) (document : Json) (point : Point) : Prop :=
  ∃ fuel answer, Fragment.ofNode registry document fuel point.node point.name point.position =
    some answer

/-- No endless chain of steps starts at the point. -/
def Point.Grounded (registry : Registry) (document : Json) (point : Point) : Prop :=
  Acc (fun next point => RenderStep registry document point next) point

/-- A composition is flattened to a clean schema, which is rendered as it is. -/
theorem cleanup_of_flattens {schema merged : Schema}
    (h : Schema.Flattens document [] schema.cleanup merged) : merged.cleanup = merged :=
  Schema.cleanup_of_normal (h.clean (Schema.normal_cleanup schema)).1

/-- A chain of steps takes fuel with each one, so that rendering with some fuel ends them all. -/
theorem grounded_of_ofNode (registry : Registry) (document : Json) (fuel : Nat) :
    (∀ node name position answer,
      Fragment.ofNode registry document fuel node name position = some answer →
        Point.Grounded registry document ⟨node, name, position⟩) ∧
    (∀ schema name position answer,
      Fragment.ofSchema registry document fuel schema.cleanup name position = some answer →
        Point.Grounded registry document ⟨.object schema, name, position⟩) := by
  induction fuel with
  | zero =>
    refine ⟨fun node name position answer h => ?_, fun schema name position answer h => ?_⟩
    · rw [Fragment.ofNode] at h
      cases h
    · rw [Fragment.ofSchema] at h
      cases h
  | succ fuel ih =>
    obtain ⟨ihNode, ihSchema⟩ := ih
    refine ⟨fun node name position answer h => ?_, fun schema name position answer h => ?_⟩
    · cases node with
      | bool admits => exact .intro _ fun next hstep => by cases hstep
      | object schema =>
        rw [Fragment.ofNode] at h
        exact ihSchema schema name position answer h
    · have houtlined := Fragment.ofSchema_outline h
      refine .intro _ fun next hstep => ?_
      cases hstep with
      | @part _ _ _ sure parts part outline mem =>
        rw [outline] at houtlined
        obtain ⟨answers, hanswers, -, -⟩ := houtlined
        obtain ⟨answer, -, hanswer⟩ := exists_of_forall₂_left hanswers mem
        exact ihNode part.1 part.2 .nested answer hanswer
      | @composition _ merged _ child _ outline flattens =>
        rw [outline] at houtlined
        obtain ⟨other, hother, h⟩ := houtlined
        obtain rfl : other = merged := Schema.Flattens.unique ⟨fuel, hother⟩ flattens
        rw [← cleanup_of_flattens flattens] at h
        exact ihSchema other child position answer h

/-- Where no endless chain starts, the fuel for what comes next is enough but for two units. -/
theorem Point.Grounded.ends (h : point.Grounded registry document) :
    point.Ends registry document := by
  induction h with
  | intro point _ ih =>
    obtain ⟨node, name, position⟩ := point
    cases node with
    | bool admits => cases admits <;> exact ⟨1, _, rfl⟩
    | object schema =>
      have hschema : ∃ fuel answer, Fragment.ofSchema registry document (fuel + 1) schema.cleanup
          name position = some answer := by
        cases houtline : schema.cleanup.outline registry document name position with
        | parts sure parts =>
          have hmono : ∀ fuel more (part : Part), fuel ≤ more →
              Refines (Fragment.ofNode registry document fuel part.1 part.2 .nested)
                (Fragment.ofNode registry document more part.1 part.2 .nested) :=
            fun _ _ part hle => Fragment.ofNode_refines hle part.1 part.2 .nested
          obtain ⟨fuel, answers, hanswers⟩ := exists_fuel_mapM hmono
            fun part hpart => ih _ (.part houtline hpart)
          refine ⟨fuel, Fragment.exists_ofSchema ?_⟩
          rw [houtline]
          intro part hpart
          obtain ⟨answer, -, hanswer⟩ :=
            exists_of_forall₂_left (mapM_eq_some_iff.mp hanswers) hpart
          exact ⟨answer, hanswer⟩
        | reference reference =>
          refine ⟨0, Fragment.exists_ofSchema ?_⟩
          rw [houtline]
          trivial
        | composition child =>
          obtain ⟨merged, hmerged⟩ := Schema.exists_flattens document [] schema.cleanup
          obtain ⟨fuel, answer, hanswer⟩ := ih _ (.composition houtline hmerged)
          obtain ⟨more, hmore⟩ := hmerged
          refine ⟨max fuel more, Fragment.exists_ofSchema ?_⟩
          rw [houtline]
          refine ⟨merged, answer, ?_, ?_⟩
          · exact Schema.flattenWithin_refines (Nat.le_max_right ..) [] _ merged hmore
          · -- The node that was rendered is the flattened schema, with one unit more.
            have hnode := Fragment.ofNode_refines (Nat.le_succ_of_le (Nat.le_max_left fuel more))
              _ _ _ answer hanswer
            rw [Fragment.ofNode, cleanup_of_flattens ⟨more, hmore⟩] at hnode
            exact hnode
      obtain ⟨fuel, answer, hanswer⟩ := hschema
      refine ⟨fuel + 2, answer, ?_⟩
      rw [Fragment.ofNode]
      exact hanswer

/-- Rendering a point ends if and only if no endless chain of steps starts there. -/
theorem ends_iff_grounded : point.Ends registry document ↔ point.Grounded registry document := by
  constructor
  · rintro ⟨fuel, answer, h⟩
    exact (grounded_of_ofNode registry document fuel).1 _ _ _ answer h
  · exact Point.Grounded.ends

end TypedClient
