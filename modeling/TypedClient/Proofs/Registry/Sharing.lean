/-
  TypedClient.Proofs.Registry.Sharing

  References share a declaration when they have one name, and the entry under the name is what the
  first of them stores that gets there.

  A reference has its own entry unless it is preempted: its name was taken when the reference was
  asked for, or was taken while its target was being walked.  The second case is the only one for
  two references that were both marked: the one marked first is still active when the other comes
  up, since its name would be taken otherwise, and so it uses the other one.
-/
import TypedClient.Proofs.Registry.Occurrence

namespace TypedClient
namespace Registry

open Relation

/-! ## What became of a reference -/

section

variable (document : Json) (requests : List Request) (registry : Registry)

/-- The reference was come by: it was marked, a call is the reference, or it stands at a walked
    position. -/
inductive Met : String → Prop where
  | marked {reference : String} (visited : reference ∈ registry.visited) : Met reference
  | answered {request : Request} {reference : String} (mem : request ∈ requests)
      (answers : request.reference? = some reference) : Met reference
  | position {node : SchemaNode} {place : Option String} {schema : Schema} {reference : String}
      (walked : Walked document requests registry node place)
      (read : node.toSchema? = some schema) (visit : schema.visit place = .reference reference) :
      Met reference

/-- In the course of the run the reference was registered: it was asked for, and the walk of its
    target, for which the schema is stored, led to the last registry. -/
def Registers (reference : String) (stored : SchemaNode) (walked : Registry) : Prop :=
  ∃ fuel start call, Asked document requests registry reference fuel start ∧
    Opens document fuel start reference call ∧ call.node = stored ∧ call.Returns document walked

/-- Another entry has the name of the reference. -/
inductive Preempts (reference : String) (entry : Entry) : Prop where
  /-- It was there when the run asked for the reference, which was skipped for it. -/
  | before {fuel : Nat} {start : Registry}
      (asked : Asked document requests registry reference fuel start)
      (unmarked : reference ∉ registry.visited)
      (taken : start.get? (Reference.name reference) = some entry)
  /-- It came while the target of the reference was being walked. -/
  | walking {stored : SchemaNode} {walked : Registry}
      (registers : Registers document requests registry reference stored walked)
      (taken : walked.get? (Reference.name reference) = some entry)
  /-- It was put there in the course of the run, and the reference was never asked for, since no call
      came to it. -/
  | passed (never : ∀ fuel start, ¬ Asked document requests registry reference fuel start)
      (placed : Placed document requests registry (Reference.name reference) entry)

/-- The entry under the name of the reference is what is stored for the reference. -/
def HoldsTarget (reference : String) (stored : SchemaNode) : Prop :=
  ∃ entry, registry.get? (Reference.name reference) = some entry ∧ entry.schema = stored

/-- The name of the reference went to another schema than the one that is stored for it. -/
def Displaced (reference : String) (stored : SchemaNode) : Prop :=
  ∃ entry, Preempts document requests registry reference entry ∧ entry.schema ≠ stored

end

section

variable {document : Json} {requests : List Request} {registry walked : Registry}
  {reference : String} {stored : SchemaNode} {entry : Entry}

/-- What is stored for a registered reference is put under its name, unless that was taken in the
    walk of the target. -/
theorem Registers.extends (h : Registers document requests registry reference stored walked) :
    ∃ own, own.schema = stored ∧
      Extends (walked.insertNew (Reference.name reference) own) registry := by
  obtain ⟨fuel, start, call, hasked, hopens, rfl, hreturns⟩ := h
  obtain ⟨asStruct, after, hregister, hle⟩ := hasked.register
  obtain ⟨last, hlast, rfl⟩ := hopens.inserts hregister
  obtain rfl := Option.some.inj (hreturns.symm.trans hlast)
  exact ⟨_, rfl, hle⟩

/-- The entry under the name of a registered reference came up in the walk, or is its own. -/
theorem Registers.exists_get? (h : Registers document requests registry reference stored walked) :
    ∃ entry, registry.get? (Reference.name reference) = some entry ∧
      (walked.get? (Reference.name reference) = some entry ∨ entry.schema = stored) := by
  obtain ⟨own, hown, hle⟩ := h.extends
  obtain ⟨entry, hentry, htaken | rfl⟩ := get?_insertNew_self walked (Reference.name reference) own
  · exact ⟨entry, hle.get? hentry, Or.inl htaken⟩
  · exact ⟨entry, hle.get? hentry, Or.inr hown⟩

/-- An entry that preempts a reference has its name for good. -/
theorem Preempts.get? (h : Preempts document requests registry reference entry) :
    registry.get? (Reference.name reference) = some entry := by
  cases h with
  | before asked unmarked taken =>
    obtain ⟨asStruct, after, hregister, hle⟩ := asked.register
    exact hle.get? ((register_extends hregister).get? taken)
  | walking registers taken =>
    obtain ⟨own, -, hle⟩ := registers.extends
    exact hle.get? ((extends_insertNew _ _ own).get? taken)
  | passed never placed => exact placed.get?

end

/-! ## Marked references -/

/-- A reference that was marked before another one of the same name uses that one. -/
def Nested (document : Json) (registry : Registry) : Prop :=
  registry.visited.Pairwise fun other reference =>
    Reference.name other = Reference.name reference →
      (Reference.resolve document other).isSome = true → TransGen (Uses document) other reference

section

variable {document : Json} {requests : List Request} {active : List String}
  {registry : Registry} {reference : String}

/-- Marking a reference keeps the marked ones nested: a reference of its name that was marked
    before is active, since the name would not be free otherwise. -/
theorem Nested.visit (h : Nested document registry)
    (hsound : SoundBut document requests active registry)
    (hfollows : ∀ other ∈ active, TransGen (Uses document) other reference)
    (hfree : registry.has (Reference.name reference) = false) :
    Nested document (registry.visit reference) := by
  refine List.pairwise_append.mpr ⟨h, List.pairwise_singleton .., ?_⟩
  intro other hother last hlast hname hresolves
  obtain rfl := List.mem_singleton.mp hlast
  apply hfollows other
  by_contra hactive
  obtain ⟨target, htarget⟩ := Reference.exists_resolveNode hresolves
  have hhas := hsound.registered other hother hactive _ htarget
  rw [hname, hfree] at hhas
  cases hhas

/-- Every step keeps the marked references nested. -/
theorem Nested.step {state next : State} (hstep : Step document requests state next)
    (h : Nested document state.registry) : Nested document next.registry := by
  cases hstep with
  | mark sound follows free => exact h.visit sound follows free
  | start sound follows free =>
    have hvisit := h.visit sound follows free
    unfold Nested at hvisit ⊢
    rw [visited_keepTarget]
    exact hvisit
  | finish => exact h
  | store => exact h
  | enumerate => exact h

end

section

variable {document : Json} {requests : List Request} {registry : Registry} {reference : String}

/-- Two marked references of one name that lead somewhere: one of them uses the other. -/
theorem Adds.uses_or_uses {other : String} (h : Adds document requests registry)
    (hmarked : reference ∈ registry.visited) (hother : other ∈ registry.visited)
    (hne : reference ≠ other) (hname : Reference.name reference = Reference.name other)
    (hresolves : (Reference.resolve document reference).isSome = true)
    (hresolves' : (Reference.resolve document other).isSome = true) :
    TransGen (Uses document) reference other ∨ TransGen (Uses document) other reference := by
  have hnested : Nested document registry :=
    h.invariant (P := fun state => Nested document state.registry) List.Pairwise.nil
      fun _ _ hstep hstate => hstate.step hstep
  obtain ⟨earlier, later, hvisited⟩ := List.append_of_mem hmarked
  unfold Nested at hnested
  rw [hvisited] at hnested hother
  obtain ⟨-, hafter, hbefore⟩ := List.pairwise_append.mp hnested
  -- The other one was marked before the reference, or after it.
  rcases List.mem_append.mp hother with hother | hother
  · exact Or.inr (hbefore other hother reference (List.mem_cons_self ..) hname.symm hresolves')
  · rcases List.mem_cons.mp hother with heq | hother
    · exact absurd heq.symm hne
    · exact Or.inl ((List.pairwise_cons.mp hafter).1 other hother hname hresolves)

/-- A marked reference that leads somewhere was registered, for what is stored for its target. -/
theorem Adds.exists_registers {target stored : SchemaNode} (h : Adds document requests registry)
    (hmarked : reference ∈ registry.visited)
    (htarget : Reference.resolveNode document reference = some target)
    (hstores : target.Stores document stored) :
    ∃ walked, Registers document requests registry reference stored walked := by
  obtain ⟨fuel, start, hasked, hmissing | ⟨call, hopens⟩⟩ := h.exists_asked hmarked
  · cases hmissing.symm.trans htarget
  · obtain ⟨asStruct, after, hregister, -⟩ := hasked.register
    obtain ⟨walked, hwalked, -⟩ := hopens.inserts hregister
    exact ⟨walked, fuel, start, call, hasked, hopens, hopens.node_eq htarget hstores, hwalked⟩

/-! ## References that were come by -/

/-- The name of a reference that was come by is taken, if the reference leads somewhere. -/
theorem Met.has {target : SchemaNode} (h : Met document requests registry reference)
    (hadds : Adds document requests registry)
    (htarget : Reference.resolveNode document reference = some target) :
    registry.has (Reference.name reference) = true := by
  cases h with
  | marked visited =>
    exact hadds.sound.registered reference visited List.not_mem_nil target htarget
  | answered mem answers =>
    obtain ⟨fuel, start, hasked⟩ := hadds.asked_of_answers mem answers
    obtain ⟨asStruct, after, hregister, hle⟩ := hasked.register
    exact hadds.sound.has_of_register hregister hle htarget
  | position walked read visit => exact hadds.sound.has_of_walked walked read visit htarget

/-- A reference that leads somewhere and was not marked had its name taken when it was asked for. -/
theorem Asked.exists_taken {fuel : Nat} {start : Registry} {target : SchemaNode}
    (h : Asked document requests registry reference fuel start)
    (hunmarked : reference ∉ registry.visited)
    (htarget : Reference.resolveNode document reference = some target) :
    ∃ entry, start.get? (Reference.name reference) = some entry := by
  obtain ⟨asStruct, after, hregister, hle⟩ := h.register
  have hafter : reference ∉ after.visited := fun hmem => hunmarked (hle.visited.subset hmem)
  rcases register_cases hregister with ⟨rfl, hskip⟩ | ⟨-, hfree, hfresh, ⟨hnone, -⟩ |
    ⟨_, stored, walked, hresolves, hstored, hwalked, rfl⟩⟩
  · rcases hskip with hexternal | hname | hvisited
    · rw [Reference.resolveNode, Reference.resolve, hexternal] at htarget
      cases htarget
    · exact has_iff_exists.mp hname
    · exact absurd hvisited hafter
  · cases hnone.symm.trans htarget
  · have hopens := Opens.target hfree hfresh hresolves hstored
    exact absurd ((walk_extends hwalked).visited.subset hopens.marked) hafter

/-- The entry under the name of a reference that was come by preempts the reference, or is its
    own. -/
theorem Adds.preempts_or_stored {target stored : SchemaNode} (h : Adds document requests registry)
    (hmet : Met document requests registry reference)
    (htarget : Reference.resolveNode document reference = some target)
    (hstores : target.Stores document stored) :
    ∃ entry, registry.get? (Reference.name reference) = some entry ∧
      (Preempts document requests registry reference entry ∨ entry.schema = stored) := by
  by_cases hmarked : reference ∈ registry.visited
  · obtain ⟨walked, hregisters⟩ := h.exists_registers hmarked htarget hstores
    obtain ⟨entry, hentry, htaken | hown⟩ := hregisters.exists_get?
    · exact ⟨entry, hentry, Or.inl (.walking hregisters htaken)⟩
    · exact ⟨entry, hentry, Or.inr hown⟩
  · by_cases hasked : ∃ fuel start, Asked document requests registry reference fuel start
    · obtain ⟨fuel, start, hasked⟩ := hasked
      obtain ⟨entry, htaken⟩ := hasked.exists_taken hmarked htarget
      have hpreempts := Preempts.before hasked hmarked htaken
      exact ⟨entry, hpreempts.get?, Or.inl hpreempts⟩
    · obtain ⟨entry, hentry⟩ := has_iff_exists.mp (hmet.has h htarget)
      exact ⟨entry, hentry, Or.inl (.passed (fun fuel start hask => hasked ⟨fuel, start, hask⟩)
        (h.get?_iff_placed.mp hentry))⟩

/-- The entry under the name of a reference is the one of its target, unless the name went to
    another schema before. -/
theorem Adds.holds_iff {target stored : SchemaNode} (h : Adds document requests registry)
    (hmet : Met document requests registry reference)
    (htarget : Reference.resolveNode document reference = some target)
    (hstores : target.Stores document stored) :
    HoldsTarget registry reference stored ↔
      ¬ Displaced document requests registry reference stored := by
  obtain ⟨entry, hentry, hsource⟩ := h.preempts_or_stored hmet htarget hstores
  constructor
  · rintro ⟨own, hget, hown⟩ ⟨other, hother, hne⟩
    obtain rfl := Option.some.inj (hget.symm.trans hother.get?)
    exact hne hown
  · intro hkept
    refine ⟨entry, hentry, ?_⟩
    rcases hsource with hpreempts | hown
    · by_contra hne
      exact hkept ⟨entry, hpreempts, hne⟩
    · exact hown

end

/-- The entry under the name of a reference that was come by, and that leads somewhere, is what is
    stored for its target just when the name did not go to another schema before.  So of two
    references of one name for which different schemas are stored, one is displaced; and when both
    were marked, one of them uses the other.  What preempts a reference is the shape of a call, the
    target of a reference, or an enumeration or a composition at a position with the name.  Every
    reference that was marked, that a call is or that a walk has entered was asked for. -/
theorem Adds.holds_iff_not_displaced {document : Json} {requests : List Request}
    {registry : Registry} (h : Adds document requests registry) :
    (∀ reference target stored, Met document requests registry reference →
      Reference.resolveNode document reference = some target → target.Stores document stored →
        registry.has (Reference.name reference) = true ∧
          (HoldsTarget registry reference stored ↔
            ¬ Displaced document requests registry reference stored)) ∧
      (∀ first second target target' stored stored', Met document requests registry first →
        Met document requests registry second → Reference.name first = Reference.name second →
          Reference.resolveNode document first = some target →
          Reference.resolveNode document second = some target' →
          target.Stores document stored → target'.Stores document stored' → stored ≠ stored' →
            Displaced document requests registry first stored ∨
              Displaced document requests registry second stored') ∧
      (∀ first ∈ registry.visited, ∀ second ∈ registry.visited, first ≠ second →
        Reference.name first = Reference.name second →
          (Reference.resolve document first).isSome = true →
          (Reference.resolve document second).isSome = true →
            TransGen (Uses document) first second ∨ TransGen (Uses document) second first) ∧
      (∀ reference entry, Preempts document requests registry reference entry →
        Origin document requests registry (Reference.name reference) entry.schema) ∧
      ∀ reference, (reference ∈ registry.visited ∨
        (∃ request ∈ requests, request.reference? = some reference) ∨
        ∃ node place schema, Entered document requests registry node place ∧
          node.toSchema? = some schema ∧ schema.visit place = .reference reference) →
            ∃ fuel start, Asked document requests registry reference fuel start := by
  refine ⟨?_, ?_, ?_, ?_, ?_⟩
  · intro reference target stored hmet htarget hstores
    obtain ⟨entry, hentry, -⟩ := h.preempts_or_stored hmet htarget hstores
    refine ⟨?_, h.holds_iff hmet htarget hstores⟩
    rw [has_eq_isSome, hentry]
    rfl
  · intro first second target target' stored stored' hmet hmet' hname htarget htarget' hstores
      hstores' hne
    by_contra hnone
    rw [not_or] at hnone
    -- Both would be the entry under the one name.
    obtain ⟨entry, hentry, hown⟩ := (h.holds_iff hmet htarget hstores).mpr hnone.1
    obtain ⟨entry', hentry', hown'⟩ := (h.holds_iff hmet' htarget' hstores').mpr hnone.2
    rw [hname, hentry'] at hentry
    obtain rfl := Option.some.inj hentry
    exact hne (hown.symm.trans hown')
  · intro first hmarked second hmarked' hne hname hresolves hresolves'
    exact h.uses_or_uses hmarked hmarked' hne hname hresolves hresolves'
  · intro reference entry hpreempts
    exact h.sound.origin (Reference.name reference, entry) (Keyed.mem_of_get? hpreempts.get?)
  · rintro reference (hmarked | ⟨request, hmem, hanswers⟩ |
      ⟨node, place, schema, hentered, hread, hvisit⟩)
    · obtain ⟨fuel, start, hasked, -⟩ := h.exists_asked hmarked
      exact ⟨fuel, start, hasked⟩
    · exact h.asked_of_answers hmem hanswers
    · exact hentered.asked hread hvisit

/-- Two keys that lead to one name. -/
def twoKeys : Json :=
  .obj [("foo-bar", .obj [("properties", .obj [("inner", .obj [("$ref", .str "#/fooBar")])])]),
    ("fooBar", .obj [("type", .str "number")])]

/-- The name that two references share goes to the one inside, which is walked first. -/
theorem twoKeys_share_name : Reference.name "#/foo-bar" = Reference.name "#/fooBar" ∧
    ∃ registry target stored, Adds twoKeys [asking "#/foo-bar"] registry ∧
      registry.visited = ["#/foo-bar", "#/fooBar"] ∧
        Reference.resolveNode twoKeys "#/foo-bar" = some target ∧
          target.Stores twoKeys stored ∧
            Displaced twoKeys [asking "#/foo-bar"] registry "#/foo-bar" stored := by
  have hname : Reference.name "#/foo-bar" = Reference.name "#/fooBar" := by decide +kernel
  have hends : (addAll twoKeys 16 empty [asking "#/foo-bar"]).map (fun registry =>
      (registry.visited, (registry.get? (Reference.name "#/foo-bar")).map
        fun entry => entry.schema.object?.bind Schema.typeName?)) =
      some (["#/foo-bar", "#/fooBar"], some (some "number")) := by decide +kernel
  obtain ⟨registry, hregistry, hfacts⟩ := Option.map_eq_some_iff.mp hends
  obtain ⟨hvisited, hentry⟩ := Prod.mk.inj hfacts
  obtain ⟨entry, hentry, htype⟩ := Option.map_eq_some_iff.mp hentry
  have hstores : ((Reference.resolveNode twoKeys "#/foo-bar").map fun target =>
      (target.cleanup.flattenAllOf? twoKeys 4).map
        fun stored => stored.object?.bind Schema.typeName?) = some (some none) := by
    decide +kernel
  obtain ⟨target, htarget, hstores⟩ := Option.map_eq_some_iff.mp hstores
  obtain ⟨stored, hstored, htype'⟩ := Option.map_eq_some_iff.mp hstores
  have hadds := adds_of_addAll hregistry
  have hmet : Met twoKeys [asking "#/foo-bar"] registry "#/foo-bar" :=
    .marked (hvisited ▸ List.mem_cons_self ..)
  refine ⟨hname, registry, target, stored, hadds, hvisited, htarget, ⟨4, hstored⟩, ?_⟩
  by_contra hkept
  obtain ⟨own, hget, hown⟩ := (hadds.holds_iff_not_displaced.1 _ _ _ hmet htarget
    ⟨4, hstored⟩).2.mpr hkept
  obtain rfl := Option.some.inj (hentry.symm.trans hget)
  rw [hown, htype'] at htype
  cases htype

end Registry
end TypedClient
