/-
  TypedClient.Proofs.Fragment.Absence

  Which schemas have no fragment.  A schema vanishes when everything that its fragment would be put
  together from does; the recursion ends at false schemas, at references without a declaration and
  at schemas with no parts at all.  A fragment that is there mentions registered names only, but
  whether the entry under such a name has a fragment itself is never asked.
-/
import TypedClient.Proofs.Fragment.Coverage

namespace TypedClient

variable {document : Json} {registry : Registry}

/-! ## Schemas that vanish -/

/-- The node at the point has no fragment. -/
inductive Vanishes (registry : Registry) (document : Json) : Point → Prop where
  /-- A false schema. -/
  | never (name : Option String) (position : Position) :
      Vanishes registry document ⟨.bool false, name, position⟩
  /-- All positions vanish that the fragment would be put together from, if there are any. -/
  | parts {schema : Schema} {name : Option String} {position : Position} {parts : List Part}
      (outline : schema.cleanup.outline registry document name position = .parts false parts)
      (vanish : ∀ part ∈ parts, Vanishes registry document ⟨part.1, part.2, .nested⟩) :
      Vanishes registry document ⟨.object schema, name, position⟩
  /-- A reference without a declaration. -/
  | reference {schema : Schema} {name : Option String} {position : Position} {reference : String}
      (outline : schema.cleanup.outline registry document name position = .reference reference)
      (missing : Reference.isInternal reference = false ∨
        registry.has (Reference.name reference) = false) :
      Vanishes registry document ⟨.object schema, name, position⟩
  /-- A composition that is flattened to a schema that vanishes. -/
  | composition {schema merged : Schema} {name child : Option String} {position : Position}
      (outline : schema.cleanup.outline registry document name position = .composition child)
      (flattens : Schema.Flattens document [] schema.cleanup merged)
      (vanishes : Vanishes registry document ⟨.object merged, child, position⟩) :
      Vanishes registry document ⟨.object schema, name, position⟩

/-- Whether a schema vanishes is told by its outline. -/
theorem vanishes_object_iff {schema : Schema} {name : Option String} {position : Position} :
    Vanishes registry document ⟨.object schema, name, position⟩ ↔
      match schema.cleanup.outline registry document name position with
      | .parts sure parts => sure = false ∧
          ∀ part ∈ parts, Vanishes registry document ⟨part.1, part.2, .nested⟩
      | .reference reference => Reference.isInternal reference = false ∨
          registry.has (Reference.name reference) = false
      | .composition child => ∃ merged, Schema.Flattens document [] schema.cleanup merged ∧
          Vanishes registry document ⟨.object merged, child, position⟩ := by
  constructor
  · intro h
    cases h with
    | parts outline vanish =>
      rw [outline]
      exact ⟨rfl, vanish⟩
    | reference outline missing =>
      rw [outline]
      exact missing
    | composition outline flattens vanishes =>
      rw [outline]
      exact ⟨_, flattens, vanishes⟩
  · intro h
    cases outline : schema.cleanup.outline registry document name position with
    | parts sure parts =>
      rw [outline] at h
      obtain ⟨rfl, vanish⟩ := h
      exact .parts outline vanish
    | reference reference =>
      rw [outline] at h
      exact .reference outline h
    | composition child =>
      rw [outline] at h
      obtain ⟨merged, flattens, vanishes⟩ := h
      exact .composition outline flattens vanishes

theorem not_vanishes_true {name : Option String} {position : Position} :
    ¬ Vanishes registry document ⟨.bool true, name, position⟩ := by
  intro h
  cases h

namespace Fragment

/-! ## What a rendered fragment tells -/

/-- What rendering a point answers: nothing just when the point vanishes, and else a fragment that
    mentions registered names. -/
structure Answers (registry : Registry) (document : Json) (point : Point)
    (result : Option Fragment) : Prop where
  absent : result = none ↔ Vanishes registry document point
  registered : ∀ fragment name, result = some fragment → name ∈ fragment.names →
    registry.has name = true

variable {schema : Schema} {name : Option String} {position : Position} {result : Option Fragment}

/-- A fragment that is put together from positions answers when these do. -/
theorem Answers.of_parts {render : Renderer} {sure : Bool} {parts : List Part}
    (houtline : schema.cleanup.outline registry document name position = .parts sure parts)
    (hrender : ∀ node name answer, render node name = some answer →
      Answers registry document ⟨node, name, .nested⟩ answer)
    (h : PutTogether render registry (sure, parts) result) :
    Answers registry document ⟨.object schema, name, position⟩ result := by
  obtain ⟨answers, hanswers, hsome, hnames⟩ := h
  have hparts : List.Forall₂ (fun part answer =>
      Answers registry document ⟨part.1, part.2, .nested⟩ answer) parts answers :=
    hanswers.imp fun part answer hanswer => hrender part.1 part.2 answer hanswer
  refine ⟨?_, ?_⟩
  · have hvanish : (∃ fragment, some fragment ∈ answers) ↔
        ¬ ∀ part ∈ parts, Vanishes registry document ⟨part.1, part.2, .nested⟩ := by
      constructor
      · rintro ⟨fragment, hfragment⟩ hvanish
        obtain ⟨part, hpart, hanswer⟩ := exists_of_forall₂_right hparts hfragment
        cases hanswer.absent.mpr (hvanish part hpart)
      · intro hvanish
        by_contra hnone
        refine hvanish fun part hpart => ?_
        obtain ⟨answer, hmem, hanswer⟩ := exists_of_forall₂_left hparts hpart
        cases answer with
        | none => exact hanswer.absent.mp rfl
        | some fragment => exact absurd ⟨fragment, hmem⟩ hnone
    rw [hvanish] at hsome
    -- Absence is the negation of both ways for a fragment to be there.
    have hnone : result = none ↔ ¬ result.isSome = true := by
      rw [Bool.not_eq_true, Option.isSome_eq_false_iff, Option.isNone_iff_eq_none]
    rw [hnone, hsome, not_or, not_not, Bool.not_eq_true, vanishes_object_iff, houtline]
  · intro fragment mentioned hfragment hmentioned
    rcases hnames fragment mentioned hfragment hmentioned with h | ⟨answer, hanswer, h⟩
    · exact h
    · obtain ⟨part, -, hpart⟩ := exists_of_forall₂_right hparts hanswer
      exact hpart.registered answer mentioned rfl h

/-- A reference answers with the name of its declaration, if it has one. -/
theorem answers_reference {reference : String}
    (houtline : schema.cleanup.outline registry document name position = .reference reference) :
    Answers registry document ⟨.object schema, name, position⟩
      (ofReference registry reference) := by
  unfold ofReference
  dsimp only
  refine ⟨?_, ?_⟩
  · rw [vanishes_object_iff, houtline]
    dsimp only
    cases Reference.isInternal reference <;> cases registry.has (Reference.name reference) <;> simp
  · intro fragment mentioned hfragment hmentioned
    split at hfragment
    · next hregistered =>
      cases hfragment
      rw [names, List.mem_singleton] at hmentioned
      rw [hmentioned]
      exact (Bool.and_eq_true _ _ ▸ hregistered).2
    · cases hfragment

/-- Rendering a node answers, and so does rendering a schema that is clean. -/
theorem ofNode_answers (registry : Registry) (document : Json) (fuel : Nat) :
    (∀ node name position result,
      ofNode registry document fuel node name position = some result →
        Answers registry document ⟨node, name, position⟩ result) ∧
    (∀ schema name position result,
      ofSchema registry document fuel schema.cleanup name position = some result →
        Answers registry document ⟨.object schema, name, position⟩ result) := by
  induction fuel with
  | zero =>
    refine ⟨fun node name position result h => ?_, fun schema name position result h => ?_⟩
    · rw [ofNode] at h
      cases h
    · rw [ofSchema] at h
      cases h
  | succ fuel ih =>
    obtain ⟨ihNode, ihSchema⟩ := ih
    refine ⟨fun node name position result h => ?_, fun schema name position result h => ?_⟩
    · cases node with
      | bool admits =>
        cases admits with
        | true =>
          rw [ofNode] at h
          cases h
          refine ⟨iff_of_false (Option.some_ne_none _) not_vanishes_true,
            fun fragment mentioned h hmentioned => ?_⟩
          cases h
          cases hmentioned
        | false =>
          rw [ofNode] at h
          cases h
          exact ⟨iff_of_true rfl (.never name position), fun _ _ h => by cases h⟩
      | object schema =>
        rw [ofNode] at h
        exact ihSchema schema name position result h
    · have houtlined := ofSchema_outline h
      cases houtline : schema.cleanup.outline registry document name position with
      | parts sure parts =>
        rw [houtline] at houtlined
        exact .of_parts houtline (fun node name answer => ihNode node name .nested answer) houtlined
      | reference reference =>
        rw [houtline] at houtlined
        exact houtlined ▸ answers_reference houtline
      | composition child =>
        rw [houtline] at houtlined
        obtain ⟨merged, hmerged, h⟩ := houtlined
        have hflattens : Schema.Flattens document [] schema.cleanup merged := ⟨fuel, hmerged⟩
        -- What a composition is flattened to is clean, so that it is rendered as it is.
        have hclean : merged.cleanup = merged :=
          Schema.cleanup_of_normal (hflattens.clean (Schema.normal_cleanup schema)).1
        rw [← hclean] at h
        obtain ⟨habsent, hregistered⟩ := ihSchema merged child position result h
        refine ⟨?_, hregistered⟩
        rw [habsent]
        constructor
        · exact fun hvanishes => .composition houtline hflattens hvanishes
        · intro hvanishes
          rw [vanishes_object_iff, houtline] at hvanishes
          obtain ⟨other, hother, hvanishes⟩ := hvanishes
          exact hflattens.unique hother ▸ hvanishes

end Fragment
end TypedClient
