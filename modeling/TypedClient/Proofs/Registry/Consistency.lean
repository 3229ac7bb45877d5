/-
  TypedClient.Proofs.Registry.Consistency

  The tables of a registry agree with each other and with the document.  The names of the entries
  differ; the flag of an entry tells whether its schema is an enumeration; what is kept for a
  reference is its cleaned and flattened target; and a visited reference that leads somewhere has
  its name taken.

  Every step keeps all of this but the last.  A visited reference is without an entry while its
  target is being walked, so that the last comes from soundness, where the active references are
  left out and none is active once a call has returned.
-/
import TypedClient.Proofs.Registry.Course

namespace TypedClient
namespace Registry

/-- The tables agree with each other and with the document at every step. -/
structure Tidy (document : Json) (registry : Registry) : Prop where
  names : registry.names.Nodup
  targets : ∀ pair ∈ registry.resolved, pair.1 ∈ registry.visited ∧
    ∃ target, Reference.resolveNode document pair.1 = some target ∧
      target.Stores document (.object pair.2)
  flags : ∀ pair ∈ registry.entries, pair.2.isEnum = pair.2.schema.isEnumLike

/-- The tables agree, and no visited reference that leads somewhere is without its entry. -/
structure Consistent (document : Json) (registry : Registry) : Prop
    extends Tidy document registry where
  registered : ∀ reference ∈ registry.visited,
    (Reference.resolve document reference).isSome = true →
      registry.has (Reference.name reference) = true

/-- A walk stops at a schema with a name only when the schema is an enumeration. -/
theorem isEnumLike_of_visit {schema : Schema} {place : Option String}
    (h : schema.visit place = .enumeration) : schema.isEnumLike = true := by
  unfold Schema.visit at h
  split at h
  · cases h
  · split at h
    · cases h
    · split at h
      · next henum => exact henum
      · split at h
        · cases h
        · split at h
          · cases h
          · split at h <;> cases h

theorem tidy_empty (document : Json) : Tidy document empty where
  names := List.nodup_nil
  targets _ h := by cases h
  flags _ h := by cases h

section

variable {document : Json} {registry : Registry} {reference : String}

/-- The tables agree after an insertion with the right flag. -/
theorem Tidy.insertNew (h : Tidy document registry) {name : String} {entry : Entry}
    (hflag : entry.isEnum = entry.schema.isEnumLike) :
    Tidy document (registry.insertNew name entry) where
  names := Keyed.nodup_keys_insertNew h.names
  targets := h.targets
  flags pair hpair := by
    rcases Keyed.mem_insertNew hpair with hpair | rfl
    · exact h.flags pair hpair
    · exact hflag

/-- The tables agree after marking a reference. -/
theorem Tidy.visit (h : Tidy document registry) (reference : String) :
    Tidy document (registry.visit reference) where
  names := h.names
  targets pair hpair := by
    obtain ⟨hvisited, htarget⟩ := h.targets pair hpair
    exact ⟨List.mem_append_left _ hvisited, htarget⟩
  flags := h.flags

/-- The tables agree after keeping the target of a marked reference. -/
theorem Tidy.keepTarget (h : Tidy document registry) (hmark : reference ∈ registry.visited)
    {target stored : SchemaNode} (hresolves : Reference.resolveNode document reference = some target)
    (hstores : target.Stores document stored) :
    Tidy document (registry.keepTarget reference stored) := by
  cases stored with
  -- Only a target that is a schema object is kept.
  | bool admits => exact h
  | object schema =>
    refine ⟨h.names, ?_, h.flags⟩
    intro pair hpair
    rcases Keyed.mem_insert hpair with hpair | rfl
    · exact h.targets pair hpair
    · exact ⟨hmark, target, hresolves, hstores⟩

/-- Every step keeps the tables in agreement. -/
theorem Tidy.step {requests : List Request} {state next : State}
    (hstep : Step document requests state next) (h : Tidy document state.registry) :
    Tidy document next.registry := by
  cases hstep with
  | mark => exact h.visit _
  | @start active registry reference target stored _ _ _ _ resolves stores =>
    have hmark : reference ∈ (registry.visit reference).visited :=
      List.mem_append_right _ (List.mem_singleton.mpr rfl)
    exact (h.visit reference).keepTarget hmark resolves stores
  | finish => exact h.insertNew rfl
  | store => exact h.insertNew rfl
  | enumerate _ visit => exact h.insertNew (isEnumLike_of_visit visit).symm

end

variable {document : Json} {requests : List Request} {registry : Registry}

/-- The tables of a registry that calls of `add` lead to agree. -/
theorem Adds.consistent (h : Adds document requests registry) : Consistent document registry where
  toTidy := h.invariant (P := fun state => Tidy document state.registry) (tidy_empty document)
    fun _ _ hstep hstate => hstate.step hstep
  registered reference hvisited hresolves := by
    obtain ⟨target, htarget⟩ := Reference.exists_resolveNode hresolves
    exact h.sound.registered reference hvisited List.not_mem_nil target htarget

/-- A call of `add` after others only appends entries, and the tables agree after it. -/
theorem Adds.appends_and_consistent {before after : Registry} {request : Request} {fuel : Nat}
    {answer : String} (h : Adds document requests before)
    (hadd : before.add document fuel request.name request.root request.asStruct =
      some (answer, after)) :
    before.entries <+: after.entries ∧ Consistent document after := by
  have hafter : Adds document (requests ++ [request]) after := h.snoc request hadd
  exact ⟨(add_extends hadd).entries, hafter.consistent⟩

/-- A document with a schema that refers to another one and has an enumeration inside. -/
def shelf : Json :=
  .obj [("Shelf", .obj [("properties", .obj [("book", .obj [("$ref", .str "#/Book")]),
      ("kind", .obj [("enum", .arr [.str "open", .str "closed"])])])]),
    ("Book", .obj [("type", .str "string")])]

/-- The call that registers a reference. -/
def asking (reference : String) : Request := ⟨"Root", .object { ref := some reference }, false⟩

/-- Registering the shelf after the book puts the kind and the shelf behind the book. -/
theorem shelf_appends_after_book : ∃ before after,
    Adds shelf [asking "#/Book"] before ∧ before.names = ["Book"] ∧
      after.names = ["Book", "ShelfKind", "Shelf"] ∧ before.entries <+: after.entries ∧
        Consistent shelf after := by
  have hfirst : (addAll shelf 16 empty [asking "#/Book"]).map names = some ["Book"] := by
    decide +kernel
  obtain ⟨before, hbefore, hnames⟩ := Option.map_eq_some_iff.mp hfirst
  have hboth : ((addAll shelf 16 empty [asking "#/Book"]).bind fun before => before.add shelf 16
      (asking "#/Shelf").name (asking "#/Shelf").root (asking "#/Shelf").asStruct).map (·.2.names) =
        some ["Book", "ShelfKind", "Shelf"] := by
    decide +kernel
  obtain ⟨⟨answer, after⟩, hadd, hnames'⟩ := Option.map_eq_some_iff.mp hboth
  rw [hbefore, Option.bind_some] at hadd
  have hadds := adds_of_addAll hbefore
  exact ⟨before, after, hadds, hnames, hnames',
    hadds.appends_and_consistent hadd⟩

end Registry
end TypedClient
