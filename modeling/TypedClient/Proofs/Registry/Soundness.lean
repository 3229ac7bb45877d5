/-
  TypedClient.Proofs.Registry.Soundness

  What holds of every registry that calls of `add` lead to: each entry was walked under its name,
  and its schema comes from a call, from a reference or from a named position; and each walked
  reference that leads somewhere has its name taken.

  The middle of a walk breaks the last statement, since a reference is marked before its target is
  stored.  So the invariant leaves out the references that are active, those whose target is being
  walked, and none is active once a call has returned.
-/
import TypedClient.Proofs.Registry.Reach

namespace TypedClient
namespace Registry

variable {document : Json}

/-! ## Calls -/

/-- A registry that calls of `add`, one after the other, lead to from the empty one. -/
inductive Adds (document : Json) : List Request → Registry → Prop where
  | nil : Adds document [] empty
  | snoc {requests : List Request} {before after : Registry} (request : Request) {fuel : Nat}
      {answer : String} (first : Adds document requests before)
      (last : before.add document fuel request.name request.root request.asStruct =
        some (answer, after)) :
      Adds document (requests ++ [request]) after

/-- A call registers the reference that its schema is. The schema of any other call is flattened,
    walked and stored, unless its name is taken. -/
theorem add_cases {fuel : Nat} {registry after : Registry} {request : Request} {answer : String}
    (h : registry.add document fuel request.name request.root request.asStruct =
      some (answer, after)) :
    answer = request.answer ∧
      ((∃ reference, request.reference? = some reference ∧
        registry.register document fuel reference false = some after) ∨
      (request.reference? = none ∧ registry.has request.name = true ∧ after = registry) ∨
      (request.reference? = none ∧ registry.has request.name = false ∧ ∃ stored walked,
        request.root.cleanup.flattenAllOf? document fuel = some stored ∧
        walk document fuel registry stored (some request.name) = some walked ∧
        after = walked.insertNew request.name
          ⟨stored, !request.asStruct, stored.isEnumLike⟩)) := by
  unfold add at h
  dsimp only at h
  unfold Request.answer
  split at h
  · next reference href =>
    have href : request.reference? = some reference := href
    obtain ⟨registered, hregistered, h⟩ := Option.bind_eq_some_iff.mp h
    cases h
    rw [href]
    exact ⟨rfl, Or.inl ⟨reference, rfl, hregistered⟩⟩
  · next href =>
    have href : request.reference? = none := href
    rw [href]
    split at h
    · next hhas =>
      cases h
      exact ⟨rfl, Or.inr (Or.inl ⟨rfl, hhas, rfl⟩)⟩
    · next hfree =>
      rw [Bool.not_eq_true] at hfree
      obtain ⟨stored, hstored, h⟩ := Option.bind_eq_some_iff.mp h
      obtain ⟨walked, hwalked, h⟩ := Option.bind_eq_some_iff.mp h
      cases h
      exact ⟨rfl, Or.inr (Or.inr ⟨rfl, hfree, stored, walked, hstored, hwalked, rfl⟩)⟩

/-- A call only adds to the registry. -/
theorem add_extends {fuel : Nat} {registry after : Registry} {request : Request} {answer : String}
    (h : registry.add document fuel request.name request.root request.asStruct =
      some (answer, after)) : Extends registry after := by
  rcases (add_cases h).2 with ⟨reference, -, h⟩ | ⟨-, -, rfl⟩ |
    ⟨-, -, stored, walked, -, hwalked, rfl⟩
  · exact register_extends h
  · exact .refl after
  · exact (walk_extends hwalked).trans (extends_insertNew ..)

/-! ## Calls in a row -/

section

variable {fuel : Nat}

/-- The registry that some calls of `add` lead to, one after the other. -/
def addAll (document : Json) (fuel : Nat) (registry : Registry) (requests : List Request) :
    Option Registry :=
  requests.foldlM (fun registry request =>
    (registry.add document fuel request.name request.root request.asStruct).map (·.2)) registry

theorem addAll_append {registry middle after : Registry} {first second : List Request}
    (hfirst : addAll document fuel registry first = some middle)
    (hsecond : addAll document fuel middle second = some after) :
    addAll document fuel registry (first ++ second) = some after := by
  unfold addAll at hfirst ⊢
  rw [List.foldlM_append]
  exact Option.bind_eq_some_iff.mpr ⟨middle, hfirst, hsecond⟩

/-- Calls in a row only add to the registry. -/
theorem addAll_extends {requests : List Request} {before after : Registry}
    (h : addAll document fuel before requests = some after) : Extends before after := by
  refine foldlM_preserves (P := Extends before) ?_ h (.refl before)
  intro middle request next hstep hle
  obtain ⟨⟨answer, added⟩, hadd, rfl⟩ := Option.map_eq_some_iff.mp hstep
  exact hle.trans (add_extends hadd)

/-- A call among others has a registry that it starts from, and one that it leads to. -/
theorem addAll_split {start registry : Registry} {first rest : List Request} {request : Request}
    (h : addAll document fuel start (first ++ request :: rest) = some registry) :
    ∃ before answer after, addAll document fuel start first = some before ∧
      before.add document fuel request.name request.root request.asStruct =
        some (answer, after) ∧ Extends after registry := by
  unfold addAll at h
  rw [List.foldlM_append] at h
  obtain ⟨before, hbefore, h⟩ := Option.bind_eq_some_iff.mp h
  rw [List.foldlM_cons] at h
  obtain ⟨after, hafter, hrest⟩ := Option.bind_eq_some_iff.mp h
  obtain ⟨⟨answer, after⟩, hadd, rfl⟩ := Option.map_eq_some_iff.mp hafter
  exact ⟨before, answer, after, hbefore, hadd, addAll_extends hrest⟩

/-- A single call answers the name that its request stands for. -/
theorem addAll_singleton {registry after : Registry} {answer : String} (request : Request)
    (h : registry.add document fuel request.name request.root request.asStruct =
      some (answer, after)) :
    answer = request.answer ∧ addAll document fuel registry [request] = some after := by
  refine ⟨(add_cases h).1, ?_⟩
  unfold addAll
  rw [List.foldlM_cons, h]
  rfl

/-- Calls in a row add to what earlier calls led to. -/
theorem Adds.addAll {requests more : List Request} {registry after : Registry}
    (h : Adds document requests registry)
    (hmore : Registry.addAll document fuel registry more = some after) :
    Adds document (requests ++ more) after := by
  induction more generalizing requests registry with
  | nil =>
    rw [List.append_nil]
    exact Option.some.inj hmore ▸ h
  | cons request rest ih =>
    unfold Registry.addAll at hmore
    rw [List.foldlM_cons] at hmore
    obtain ⟨middle, hmiddle, hrest⟩ := Option.bind_eq_some_iff.mp hmore
    obtain ⟨⟨answer, middle⟩, hadd, rfl⟩ := Option.map_eq_some_iff.mp hmiddle
    rw [← List.singleton_append, ← List.append_assoc]
    exact ih (.snoc request h hadd) hrest

/-- Calls in a row from the empty registry. -/
theorem adds_of_addAll {requests : List Request} {registry : Registry}
    (h : addAll document fuel .empty requests = some registry) :
    Adds document requests registry :=
  Adds.nil.addAll h

end

/-! ## The invariant -/

/-- The registry is sound but for the references that are active. -/
structure SoundBut (document : Json) (requests : List Request) (active : List String)
    (registry : Registry) : Prop where
  /-- A walked reference that leads somewhere has its name taken. -/
  registered : ∀ reference ∈ registry.visited, reference ∉ active → ∀ target,
    Reference.resolveNode document reference = some target →
      registry.has (Reference.name reference) = true
  /-- What is kept for a reference is its stored target, and the reference was walked. -/
  kept : ∀ reference target, registry.target? reference = some target →
    reference ∈ registry.visited ∧ ∃ node, Reference.resolveNode document reference = some node ∧
      node.Stores document (.object target)
  /-- The target of a reference was walked under its name. -/
  target : ∀ reference target, reference ∉ active → registry.target? reference = some target →
    Walked document requests registry (.object target) (some (Reference.name reference))
  /-- Every entry was walked under its name. -/
  entry : ∀ pair ∈ registry.entries, Walked document requests registry pair.2.schema (some pair.1)
  /-- Every entry has an origin. -/
  origin : ∀ pair ∈ registry.entries, Origin document requests registry pair.1 pair.2.schema

/-- The registry is sound, and no reference is active. -/
abbrev Sound (document : Json) (requests : List Request) (registry : Registry) : Prop :=
  SoundBut document requests [] registry

theorem sound_empty (requests : List Request) : Sound document requests empty where
  registered _ h := by cases h
  kept _ _ h := by cases h
  target _ _ _ h := by cases h
  entry _ h := by cases h
  origin _ h := by cases h

section

variable {requests : List Request} {active : List String} {registry : Registry}

/-- A sound registry stays sound with an entry that was walked under its name and has an origin. -/
theorem SoundBut.insertNew (h : SoundBut document requests active registry) {name : String}
    {entry : Entry}
    (hwalked : Walked document requests (registry.insertNew name entry) entry.schema (some name))
    (horigin : Origin document requests (registry.insertNew name entry) name entry.schema) :
    SoundBut document requests active (registry.insertNew name entry) := by
  have hle := extends_insertNew registry name entry
  refine ⟨?_, h.kept, ?_, ?_, ?_⟩
  · intro reference hvisited hactive target htarget
    exact hle.has (h.registered reference hvisited hactive target htarget)
  · intro reference target hactive htarget
    exact (h.target reference target hactive htarget).mono hle
  · intro pair hpair
    rcases Keyed.mem_insertNew hpair with hpair | rfl
    · exact (h.entry pair hpair).mono hle
    · exact hwalked
  · intro pair hpair
    rcases Keyed.mem_insertNew hpair with hpair | rfl
    · exact (h.origin pair hpair).mono hle
    · exact horigin

/-- Marking a reference and keeping its target makes the reference active. -/
theorem SoundBut.keepTarget (h : SoundBut document requests active registry) {reference : String}
    (hvisited : reference ∉ registry.visited) {target stored : SchemaNode}
    (htarget : Reference.resolveNode document reference = some target)
    (hstored : target.Stores document stored) :
    SoundBut document requests (reference :: active)
      ((registry.visit reference).keepTarget reference stored) := by
  have hle := extends_keepTarget hvisited stored
  have hmem : ∀ other,
      other ∈ ((registry.visit reference).keepTarget reference stored).visited →
        other = reference ∨ other ∈ registry.visited := by
    intro other hother
    rw [visited_keepTarget] at hother
    rcases List.mem_append.mp hother with hother | hother
    · exact Or.inr hother
    · exact Or.inl (List.mem_singleton.mp hother)
  have hentries := entries_keepTarget (registry.visit reference) reference stored
  -- Entries stay as they are: what is new is the mark and the target, both of the reference.
  refine ⟨?_, ?_, ?_, ?_, ?_⟩
  · intro other hother hactive target htarget
    rw [List.mem_cons, not_or] at hactive
    rcases hmem other hother with heq | hother
    · exact absurd heq hactive.1
    · exact hle.has (h.registered other hother hactive.2 target htarget)
  · intro other kept hkept
    rw [visited_keepTarget]
    have hold : registry.target? other = some kept →
        other ∈ registry.visited ++ [reference] ∧ ∃ node,
          Reference.resolveNode document other = some node ∧
            node.Stores document (.object kept) := by
      intro hkept
      obtain ⟨hother, hnode⟩ := h.kept other kept hkept
      exact ⟨List.mem_append_left _ hother, hnode⟩
    by_cases heq : other = reference
    · subst heq
      cases stored with
      -- Only the target that is a schema object is kept.
      | bool admits => exact hold hkept
      | object schema =>
        rw [target?_keepTarget_self] at hkept
        cases hkept
        exact ⟨List.mem_append_right _ (List.mem_singleton.mpr rfl), target, htarget, hstored⟩
    · rw [target?_keepTarget_of_ne _ _ heq] at hkept
      exact hold hkept
  · intro other target hactive htarget
    rw [List.mem_cons, not_or] at hactive
    rw [target?_keepTarget_of_ne _ _ hactive.1] at htarget
    exact (h.target other target hactive.2 htarget).mono hle
  · intro pair hpair
    rw [hentries] at hpair
    exact (h.entry pair hpair).mono hle
  · intro pair hpair
    rw [hentries] at hpair
    exact (h.origin pair hpair).mono hle

/-- A reference is active no more once its name is taken and its target was walked. -/
theorem SoundBut.deactivate {reference : String}
    (h : SoundBut document requests (reference :: active) registry)
    (hname : registry.has (Reference.name reference) = true)
    (htarget : ∀ target, registry.target? reference = some target →
      Walked document requests registry (.object target) (some (Reference.name reference))) :
    SoundBut document requests active registry := by
  refine ⟨?_, h.kept, ?_, h.entry, h.origin⟩
  · intro other hvisited hactive target hother
    by_cases heq : other = reference
    · exact heq ▸ hname
    · exact h.registered other hvisited (by simp [heq, hactive]) target hother
  · intro other target hactive hother
    by_cases heq : other = reference
    · subst heq
      exact htarget target hother
    · exact h.target other target (by simp [heq, hactive]) hother

end

/-! ## Preservation -/

section

variable {requests : List Request} {active : List String} {registry after : Registry}

/-- Registering a reference keeps the registry sound, if walking does. -/
theorem SoundBut.register_of_walk {fuel : Nat}
    (hwalk : ∀ active registry node place after, Reached document requests node place →
      walk document fuel registry node place = some after →
        SoundBut document requests active registry → SoundBut document requests active after)
    {reference : String} {asStruct : Bool} (h : SoundBut document requests active registry)
    (hreferred : Referred document requests reference)
    (hregister : registry.register document fuel reference asStruct = some after) :
    SoundBut document requests active after := by
  rcases register_cases hregister with ⟨rfl, -⟩ | ⟨-, -, hvisited, ⟨hnone, rfl⟩ |
    ⟨target, stored, walked, htarget, hstored, hwalked, rfl⟩⟩
  · exact h
  · -- The reference is marked, but leads nowhere.
    have hle := extends_visit registry reference
    refine ⟨?_, ?_, ?_, ?_, ?_⟩
    · intro other hother hactive target htarget
      rcases List.mem_append.mp hother with hother | hother
      · exact hle.has (h.registered other hother hactive target htarget)
      · rw [List.mem_singleton.mp hother, hnone] at htarget
        cases htarget
    · intro other target htarget
      obtain ⟨hother, hnode⟩ := h.kept other target htarget
      exact ⟨List.mem_append_left _ hother, hnode⟩
    · exact fun other target hactive htarget => (h.target other target hactive htarget).mono hle
    · exact fun pair hpair => (h.entry pair hpair).mono hle
    · exact fun pair hpair => (h.origin pair hpair).mono hle
  · have hreached := hreferred.reached htarget ⟨fuel, hstored⟩
    have hstart := h.keepTarget hvisited htarget ⟨fuel, hstored⟩
    have hsound := hwalk _ _ _ _ _ hreached hwalked hstart
    have hmark : reference ∈ ((registry.visit reference).keepTarget reference stored).visited := by
      rw [visited_keepTarget]
      exact List.mem_append_right _ (List.mem_singleton.mpr rfl)
    have hkeeps := walk_extends hwalked
    -- The stored target was walked under the name, whatever entry is put there.
    have hself : ∀ entry, Walked document requests
        (walked.insertNew (Reference.name reference) entry) stored
          (some (Reference.name reference)) := fun entry =>
      ⟨hreached, fuel, _, walked, hwalked, extends_insertNew walked _ entry⟩
    refine (hsound.insertNew (hself _) (.target hreferred (hkeeps.visited.subset hmark) htarget
      ⟨fuel, hstored⟩)).deactivate (has_insertNew ..) ?_
    intro kept hkept
    -- The inner walk did not change the target, since the reference was marked before it.
    have hkept : ((registry.visit reference).keepTarget reference stored).target? reference =
        some kept := (hkeeps.target reference hmark).symm.trans hkept
    cases stored with
    | object schema =>
      rw [target?_keepTarget_self] at hkept
      cases hkept
      exact hself _
    | bool admits => exact absurd (h.kept reference kept hkept).1 hvisited

/-- Walking a reached node keeps the registry sound. -/
theorem SoundBut.walk {fuel : Nat} {node : SchemaNode} {place : Option String}
    (h : SoundBut document requests active registry)
    (hreached : Reached document requests node place)
    (hwalk : Registry.walk document fuel registry node place = some after) :
    SoundBut document requests active after := by
  induction fuel generalizing active registry after node place with
  | zero => cases hwalk
  | succ fuel ih =>
    -- The walk itself is the record that the position was walked.
    have hself : Walked document requests after node place :=
      ⟨hreached, fuel + 1, registry, after, hwalk, .refl after⟩
    cases hnode : node.toSchema? with
    | none =>
      rw [walk_of_none hnode] at hwalk
      exact Option.some.inj hwalk ▸ h
    | some schema =>
      cases hvisit : schema.visit place with
      | positions positions =>
        rw [walk_positions hnode hvisit] at hwalk
        exact foldlM_preserves_mem (P := SoundBut document requests active)
          (fun _ position hmem _ hstep hP => ih hP (hreached.position hnode hvisit hmem) hstep)
          hwalk h
      | enumeration =>
        rw [walk_enumeration hnode hvisit] at hwalk
        obtain rfl := Option.some.inj hwalk
        cases place with
        | none => exact h
        | some name =>
          refine h.insertNew (hself.congr ?_) (.enumeration hself hnode hvisit)
          exact (SchemaNode.toSchema?_object hnode).trans hnode.symm
      | reference reference =>
        rw [walk_reference hnode hvisit] at hwalk
        have hreferred : Referred document requests reference :=
          Or.inr ⟨node, place, schema, hreached, hnode, hvisit⟩
        exact h.register_of_walk (fun _ _ _ _ _ hreached hwalk h => ih h hreached hwalk) hreferred
          hwalk
      | composition =>
        cases place with
        | none =>
          rw [walk_composition_none hnode hvisit] at hwalk
          obtain ⟨merged, hmerged, hwalk⟩ := Option.bind_eq_some_iff.mp hwalk
          exact ih h (hreached.composition hnode hvisit ⟨fuel, hmerged⟩) hwalk
        | some parent =>
          rw [walk_composition_some hnode hvisit] at hwalk
          obtain ⟨merged, hmerged, hwalk⟩ := Option.bind_eq_some_iff.mp hwalk
          split at hwalk
          · exact Option.some.inj hwalk ▸ h
          · obtain ⟨walked, hwalked, rfl⟩ := Option.map_eq_some_iff.mp hwalk
            have hchild := hreached.composition hnode hvisit ⟨fuel, hmerged⟩
            exact (ih h hchild hwalked).insertNew
              ⟨hchild, fuel, registry, walked, hwalked, extends_insertNew ..⟩
              (.composition hself hnode hvisit ⟨fuel, hmerged⟩)

end

/-- A call keeps the registry sound. -/
theorem Sound.add {requests : List Request} {request : Request} {fuel : Nat} {answer : String}
    {registry after : Registry} (h : Sound document requests registry) (hmem : request ∈ requests)
    (hadd : registry.add document fuel request.name request.root request.asStruct =
      some (answer, after)) : Sound document requests after := by
  rcases (add_cases hadd).2 with ⟨reference, hanswers, hregister⟩ | ⟨-, -, rfl⟩ |
    ⟨hinline, -, stored, walked, hstored, hwalked, rfl⟩
  · exact h.register_of_walk (fun _ _ _ _ _ hreached hwalk h => h.walk hreached hwalk)
      (Or.inl ⟨request, hmem, hanswers⟩) hregister
  · exact h
  · have hreached : Reached document requests stored (some request.name) :=
      .shape hmem hinline ⟨fuel, hstored⟩
    exact (h.walk hreached hwalked).insertNew
      ⟨hreached, fuel, registry, walked, hwalked, extends_insertNew ..⟩
      (.shape hmem hinline ⟨fuel, hstored⟩)

/-- Calls of `add` lead to sound registries, also as a part of more calls. -/
theorem Adds.sound_of_subset {requests more : List Request} {registry : Registry}
    (h : Adds document requests registry) (hsubset : requests ⊆ more) :
    Sound document more registry := by
  induction h with
  | nil => exact sound_empty more
  | snoc request _ hlast ih =>
    obtain ⟨hfirst, hrequest⟩ := List.append_subset.mp hsubset
    exact (ih hfirst).add (hrequest (List.mem_singleton.mpr rfl)) hlast

/-- Calls of `add` lead to sound registries. -/
theorem Adds.sound {requests : List Request} {registry : Registry}
    (h : Adds document requests registry) : Sound document requests registry :=
  h.sound_of_subset (List.Subset.refl requests)

/-! ## What a sound registry answers -/

section

variable {requests : List Request} {registry : Registry}

/-- After a call of `register` a reference that leads somewhere has its name taken. -/
theorem Sound.has_of_register {fuel : Nat} {before after : Registry} {reference : String}
    {asStruct : Bool} {target : SchemaNode} (h : Sound document requests registry)
    (hregister : before.register document fuel reference asStruct = some after)
    (hafter : Extends after registry)
    (htarget : Reference.resolveNode document reference = some target) :
    registry.has (Reference.name reference) = true := by
  rcases register_cases hregister with ⟨rfl, hskip⟩ | ⟨-, -, -, ⟨hnone, -⟩ |
    ⟨target, stored, walked, -, -, -, rfl⟩⟩
  · rcases hskip with hexternal | hname | hvisited
    · rw [Reference.resolveNode, Reference.resolve, hexternal] at htarget
      cases htarget
    · exact hafter.has hname
    · exact h.registered reference (hafter.visited.subset hvisited) List.not_mem_nil target htarget
  · rw [hnone] at htarget
    cases htarget
  · exact hafter.has (has_insertNew ..)

/-- The reference at a walked position has its name taken, when it leads somewhere. -/
theorem Sound.has_of_walked {node : SchemaNode} {place : Option String} {schema : Schema}
    {reference : String} {target : SchemaNode} (h : Sound document requests registry)
    (hwalked : Walked document requests registry node place)
    (hnode : node.toSchema? = some schema) (hvisit : schema.visit place = .reference reference)
    (htarget : Reference.resolveNode document reference = some target) :
    registry.has (Reference.name reference) = true := by
  obtain ⟨fuel, before, after, hregister, hafter⟩ := hwalked.register hnode hvisit
  exact h.has_of_register hregister hafter htarget

/-- No entry is a composition that is left to flatten. -/
theorem Sound.visit_ne_composition {pair : String × Entry} {schema : Schema}
    (h : Sound document requests registry) (hpair : pair ∈ registry.entries)
    (hschema : pair.2.schema.toSchema? = some schema) :
    schema.visit (some pair.1) ≠ .composition := by
  intro hvisit
  have horigin := h.origin pair hpair
  have hallOf := allOf_isSome_of_visit hvisit
  generalize pair.1 = name at horigin hvisit
  generalize pair.2.schema = stored at horigin hschema
  cases horigin with
  | shape mem inline stores =>
    rw [stores.allOf_eq_none hschema] at hallOf
    cases hallOf
  | target referred visited resolves stores =>
    rw [stores.allOf_eq_none hschema] at hallOf
    cases hallOf
  | enumeration walked read visit =>
    rw [SchemaNode.toSchema?_object read] at hschema
    cases hschema
    rw [visit] at hvisit
    cases hvisit
  | composition walked read visit flattens =>
    -- A flattened composition has none left.
    obtain ⟨hnormal, hnone⟩ := flattens.clean (SchemaNode.normal_of_toSchema? read)
    rw [SchemaNode.toSchema?_of_normal hnormal] at hschema
    cases hschema
    rw [hnone] at hallOf
    cases hallOf

end

/-- The name that a call answered has an entry, unless the schema of the call is a reference that
    leads nowhere. -/
theorem Adds.has_answer {requests : List Request} {registry : Registry} {request : Request}
    (h : Adds document requests registry) (hmem : request ∈ requests) :
    registry.has request.answer = true ∨
      ∃ reference, request.reference? = some reference ∧
        Reference.resolve document reference = none := by
  induction h with
  | nil => cases hmem
  | @snoc requests before after last fuel answer hfirst hlast ih =>
    rcases List.mem_append.mp hmem with hmem | hmem
    · exact (ih hmem).imp_left (add_extends hlast).has
    obtain rfl := List.mem_singleton.mp hmem
    unfold Request.answer
    rcases (add_cases hlast).2 with ⟨reference, href, hregister⟩ | ⟨hinline, hhas, rfl⟩ |
      ⟨hinline, -, stored, walked, -, -, rfl⟩
    · rw [href]
      cases hresolve : Reference.resolve document reference with
      | none => exact Or.inr ⟨reference, rfl, hresolve⟩
      | some value =>
        have htarget : Reference.resolveNode document reference = some (.ofJson value) := by
          rw [Reference.resolveNode, hresolve, Option.map_some]
        have hsound := (hfirst.snoc _ hlast).sound
        exact Or.inl (hsound.has_of_register hregister (.refl after) htarget)
    · rw [hinline]
      exact Or.inl hhas
    · rw [hinline]
      exact Or.inl (has_insertNew ..)

/-- The names that are taken are those that something has been registered under. -/
theorem Adds.has_iff_origin {requests : List Request} {registry : Registry} {name : String}
    (h : Adds document requests registry) :
    registry.has name = true ↔ ∃ stored, Origin document requests registry name stored := by
  constructor
  · intro hname
    obtain ⟨entry, hentry⟩ := has_iff_exists.mp hname
    exact ⟨entry.schema, h.sound.origin _ (Keyed.mem_of_get? hentry)⟩
  · rintro ⟨stored, horigin⟩
    cases horigin with
    | @shape request stored mem inline stores =>
      have hanswer : request.answer = request.name := by rw [Request.answer, inline]
      rcases h.has_answer mem with hhas | ⟨reference, href, -⟩
      · exact hanswer ▸ hhas
      · rw [inline] at href
        cases href
    | target referred visited resolves stores =>
      exact h.sound.registered _ visited List.not_mem_nil _ resolves
    | enumeration walked read visit => exact walked.has_enumeration read visit
    | composition walked read visit flattens => exact walked.has_enumChildName read visit

end Registry
end TypedClient
