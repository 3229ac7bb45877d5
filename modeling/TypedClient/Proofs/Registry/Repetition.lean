/-
  TypedClient.Proofs.Registry.Repetition

  Repeating a call of `add` changes nothing.

  A call comes to its end at once in one of several ways: its name is taken, or it is a reference
  that leads out of the document, that was marked, or whose name is taken.  A call that returns
  leaves one of these behind, not always the one by which it would have ended itself: a reference
  without a target is only marked, and a schema whose name was taken while it was walked is not
  stored.  What stops a call is there for good, since registries only grow.
-/
import TypedClient.Proofs.Registry.Consistency

namespace TypedClient
namespace Registry

open Relation

/-- The reference leads out of the document, its name is taken, or it was marked. -/
def Skips (registry : Registry) (reference : String) : Prop :=
  Reference.isInternal reference = false ∨ registry.has (Reference.name reference) = true ∨
    reference ∈ registry.visited

/-- The call ends at once in the registry: its name is taken, or it is a reference that is
    skipped. -/
inductive Stops (registry : Registry) (request : Request) : Prop where
  | name (inline : request.reference? = none) (taken : registry.has request.name = true)
  | reference {reference : String} (answers : request.reference? = some reference)
      (skips : Skips registry reference)

section

variable {document : Json} {registry after later : Registry} {request : Request} {fuel : Nat}
  {answer : String}

theorem Skips.mono {reference : String} (h : Skips registry reference)
    (hle : Extends registry after) : Skips after reference :=
  h.imp_right (Or.imp hle.has fun hmarked => hle.visited.subset hmarked)

/-- What stops a call stops it in every later registry. -/
theorem Stops.mono (h : Stops registry request) (hle : Extends registry after) :
    Stops after request := by
  cases h with
  | name inline taken => exact .name inline (hle.has taken)
  | reference answers skips => exact .reference answers (skips.mono hle)

/-- Registering a reference that is skipped changes nothing. -/
theorem Skips.register {reference : String} (h : Skips registry reference) (document : Json)
    (fuel : Nat) (asStruct : Bool) :
    registry.register document fuel reference asStruct = some registry := by
  unfold Registry.register registerWith
  refine if_pos ?_
  rcases h with h | h | h <;> simp [h]

/-- A call that ends at once needs no fuel and changes nothing. -/
theorem Stops.add (h : Stops registry request) (document : Json) (fuel : Nat) :
    registry.add document fuel request.name request.root request.asStruct =
      some (request.answer, registry) := by
  unfold Registry.add Request.answer
  cases h with
  | name inline taken =>
    have hroot : request.root.cleanup.object?.bind (·.ref) = none := inline
    rw [inline]
    dsimp only
    rw [hroot]
    exact if_pos taken
  | reference answers skips =>
    have hroot : request.root.cleanup.object?.bind (·.ref) = some _ := answers
    rw [answers]
    dsimp only
    rw [hroot]
    dsimp only
    rw [skips.register]
    rfl

/-- A call that returns leaves behind what stops it. -/
theorem stops_of_add (h : registry.add document fuel request.name request.root request.asStruct =
    some (answer, after)) : Stops after request := by
  rcases (add_cases h).2 with ⟨reference, hanswers, hregister⟩ | ⟨hinline, htaken, rfl⟩ |
    ⟨hinline, -, stored, walked, -, -, rfl⟩
  · refine .reference hanswers ?_
    rcases register_cases hregister with ⟨rfl, hskips⟩ | ⟨-, -, -, ⟨-, rfl⟩ |
      ⟨target, stored, walked, -, -, -, rfl⟩⟩
    · exact hskips
    · -- The reference leads nowhere, and the mark alone is left.
      exact Or.inr (Or.inr (List.mem_append_right _ (List.mem_singleton.mpr rfl)))
    · exact Or.inr (Or.inl (has_insertNew ..))
  · exact .name hinline htaken
  · exact .name hinline (has_insertNew ..)

/-- Some call leads from the first registry to the second one. -/
def AddStep (document : Json) (before after : Registry) : Prop :=
  ∃ (request : Request) (fuel : Nat) (answer : String),
    before.add document fuel request.name request.root request.asStruct = some (answer, after)

/-- Calls in a row only add to the registry. -/
theorem extends_of_addSteps (h : ReflTransGen (AddStep document) after later) :
    Extends after later := by
  induction h with
  | refl => exact .refl after
  | tail _ hlast ih =>
    obtain ⟨request, fuel, answer, hadd⟩ := hlast
    exact ih.trans (add_extends hadd)

/-- A call that has returned answers the same when it is repeated, after whatever further calls,
    and the repetition changes nothing. -/
theorem add_again {name : String} {root : SchemaNode} {asStruct : Bool}
    (hadd : registry.add document fuel name root asStruct = some (answer, after))
    (hlater : ReflTransGen (AddStep document) after later) (again : Nat) :
    later.add document again name root asStruct = some (answer, later) := by
  -- What stopped the call stops it later too, and a call that is stopped answers its own name.
  let request : Request := ⟨name, root, asStruct⟩
  have hfirst : registry.add document fuel request.name request.root request.asStruct =
      some (answer, after) := hadd
  have hstops := (stops_of_add hfirst).mono (extends_of_addSteps hlater)
  rw [(add_cases hfirst).1]
  exact hstops.add document again

end

/-- A document with a schema that refers to itself. -/
def selfLink : Json :=
  .obj [("Link", .obj [("properties", .obj [("next", .obj [("$ref", .str "#/Link")])])])]

/-- Asking for a cycle, for nothing and for another document, and then for each of them again. -/
theorem selfLink_added_again : ∃ first second third,
    empty.add selfLink 16 "Root" (asking "#/Link").root false = some ("Link", first) ∧
    first.add selfLink 16 "Root" (asking "#/Gone").root false = some ("Gone", second) ∧
    second.add selfLink 16 "Root" (asking "other.json#/Link").root false = some ("Link", third) ∧
    third.names = ["Link"] ∧ third.visited = ["#/Link", "#/Gone"] ∧
    third.add selfLink 0 "Root" (asking "#/Link").root false = some ("Link", third) ∧
    third.add selfLink 0 "Root" (asking "#/Gone").root false = some ("Gone", third) ∧
    third.add selfLink 0 "Root" (asking "other.json#/Link").root false = some ("Link", third) := by
  have hruns : ((empty.add selfLink 16 "Root" (asking "#/Link").root false).bind fun first =>
      (first.2.add selfLink 16 "Root" (asking "#/Gone").root false).bind fun second =>
        (second.2.add selfLink 16 "Root" (asking "other.json#/Link").root false).map fun third =>
          (first.1, second.1, third.1, third.2.names, third.2.visited)) =
      some ("Link", "Gone", "Link", ["Link"], ["#/Link", "#/Gone"]) := by
    decide +kernel
  obtain ⟨⟨link, first⟩, hfirst, hruns⟩ := Option.bind_eq_some_iff.mp hruns
  obtain ⟨⟨gone, second⟩, hsecond, hruns⟩ := Option.bind_eq_some_iff.mp hruns
  obtain ⟨⟨other, third⟩, hthird, hruns⟩ := Option.map_eq_some_iff.mp hruns
  simp only [Prod.mk.injEq] at hruns
  obtain ⟨rfl, rfl, rfl, hnames, hvisited⟩ := hruns
  have hgone : AddStep selfLink first second := ⟨⟨"Root", _, false⟩, 16, "Gone", hsecond⟩
  have hother : AddStep selfLink second third := ⟨⟨"Root", _, false⟩, 16, "Link", hthird⟩
  exact ⟨first, second, third, hfirst, hsecond, hthird, hnames, hvisited,
    add_again hfirst (.tail (.single hgone) hother) 0, add_again hsecond (.single hother) 0,
    add_again hthird .refl 0⟩

end Registry
end TypedClient
