/-
  TypedClient.Proofs.Registry.Order

  Entries come after what they depend on, when no reference of the document uses itself.

  An entry is put at the end once its schema has been walked under its name, so it is enough to
  know what has a name by then.  A reference that the walk visits and that leads somewhere has its
  name taken unless it is active; and an active one would use itself through the walk.
-/
import TypedClient.Proofs.Registry.Consistency

namespace TypedClient
namespace Registry

open Relation

/-- The call walked the schema of the entry under its name, before the entry was put behind the
    earlier ones.  What the call registered is among these. -/
structure Prepares (document : Json) (earlier : Keyed Entry) (name : String) (entry : Entry)
    (call : Call) : Prop where
  node : call.node = entry.schema
  place : call.place = some name
  returns : ∃ after, call.Returns document after ∧ after.entries <+: earlier ++ [(name, entry)]
  references : ∀ reference, call.Visits document reference →
    (Reference.resolve document reference).isSome = true →
      Keyed.has (Reference.name reference) earlier = true
  derived : ∀ inner, TransGen (Call.Makes document) call inner → ∀ child,
    Derives inner.site child → Keyed.has child earlier = true

/-- What an entry depends on has its names among the earlier entries: the references that a walk
    of its schema comes to without entering a composition with a name, the names that such a walk
    derives below the top of the schema, and what the walk registered that took place. -/
structure Preceded (document : Json) (earlier : Keyed Entry) (name : String) (entry : Entry) :
    Prop where
  references : ∀ reference, Comes document false (entry.schema, some name) reference →
    (Reference.resolve document reference).isSome = true →
      Keyed.has (Reference.name reference) earlier = true
  derived : ∀ inner, TransGen (Leads document false) (entry.schema, some name) inner →
    ∀ child, Derives inner child → Keyed.has child earlier = true
  prepared : ∃ call, Prepares document earlier name entry call

section

variable {document : Json} {earlier later : Keyed Entry} {name : String} {entry : Entry}

/-- A call that ends gets wherever a walk leads without entering a composition with a name, so what
    it registered is what the entry depends on. -/
theorem Prepares.preceded {call : Call} (h : Prepares document earlier name entry call) :
    Preceded document earlier name entry := by
  obtain ⟨after, hreturns, -⟩ := h.returns
  have hsite : call.site = (entry.schema, some name) := by
    rw [Call.site, h.node, h.place]
  refine ⟨?_, ?_, call, h⟩
  · rintro reference ⟨last, hpath, hrefers⟩ hresolves
    rw [← hsite] at hpath
    rcases reflTransGen_iff_eq_or_transGen.mp hpath with rfl | hpath
    · exact h.references reference ⟨call, ReflTransGen.refl, hrefers⟩ hresolves
    · obtain ⟨inner, hmakes, rfl⟩ := Call.exists_calls_of_leads hreturns hpath
      exact h.references reference ⟨inner, hmakes.to_reflTransGen, hrefers⟩ hresolves
  · intro last hpath child hderives
    rw [← hsite] at hpath
    obtain ⟨inner, hmakes, rfl⟩ := Call.exists_calls_of_leads hreturns hpath
    exact h.derived inner hmakes child hderives

/-! ## The invariant -/

/-- Every entry was walked under its name, and comes after what the walk registered. -/
def Ordered (document : Json) (registry : Registry) : Prop :=
  ∀ earlier name entry later, registry.entries = earlier ++ (name, entry) :: later →
    ∃ call, Prepares document earlier name entry call

/-- Entries stay in order when a new one comes that is prepared by the ones before it. -/
theorem Ordered.insertNew {registry : Registry} (h : Ordered document registry)
    (hnew : registry.has name = false →
      ∃ call, Prepares document registry.entries name entry call) :
    Ordered document (registry.insertNew name entry) := by
  cases hfree : registry.has name with
  | true =>
    rw [insertNew_of_has hfree]
    exact h
  | false =>
    have hcall := hnew hfree
    intro earlier other placed later hentries
    rw [entries_insertNew_of_free hfree] at hentries
    -- The entry in question is the new last one, or one of those before it.
    rcases List.eq_nil_or_concat later with rfl | ⟨rest, last, rfl⟩
    · obtain ⟨rfl, hlast⟩ := List.append_inj' hentries rfl
      obtain ⟨rfl, rfl⟩ := Prod.mk.inj (List.singleton_inj.mp hlast)
      exact hcall
    · rw [List.concat_eq_append, ← List.cons_append, ← List.append_assoc] at hentries
      exact h earlier other placed rest (List.append_inj' hentries rfl).1

section

variable {requests : List Request} {active : List String} {call inner : Call} {walked : Registry}

/-- No call visits a reference that is active, when no reference uses itself. -/
theorem Underway.not_active (h : Underway document requests active call)
    (hacyclic : Acyclic document) {reference : String}
    (hinternal : Reference.isInternal reference = true)
    (hvisits : call.Visits document reference) : reference ∉ active := by
  intro hactive
  exact hacyclic reference (h.follows reference hactive reference hinternal hvisits)

/-- A call that ends prepares the entry that comes next. -/
theorem Underway.prepares (h : Underway document requests active call)
    (hacyclic : Acyclic document) (hreturns : call.Returns document walked)
    (hplace : call.place = some name) (hnode : call.node = entry.schema) :
    Prepares document walked.entries name entry call where
  node := hnode
  place := hplace
  returns := ⟨walked, hreturns, List.prefix_append ..⟩
  references reference hvisits hresolves := by
    obtain ⟨target, htarget⟩ := Reference.exists_resolveNode hresolves
    have hactive := h.not_active hacyclic (Reference.isInternal_of_resolveNode htarget) hvisits
    obtain ⟨inner, hmakes, hrefers⟩ := hvisits
    obtain ⟨middle, hmiddle, hle⟩ := Call.returns_of_makes hmakes hreturns
    have hhas := (h.makes_all hmakes).has_of_refers hmiddle hrefers hactive htarget
    exact hle.has hhas
  derived inner hmakes child hderives := by
    obtain ⟨middle, hmiddle, hle⟩ := Call.returns_of_makes hmakes.to_reflTransGen hreturns
    exact hle.has (hmiddle.has_of_derives hderives)

end

/-- The call that registers an enumeration makes no other call and visits no reference. -/
theorem prepares_enumeration {registry : Registry} {schema : Schema} (hclean : Schema.Normal schema)
    (hvisit : schema.visit (some name) = .enumeration) (hfree : registry.has name = false) :
    Prepares document registry.entries name ⟨.object schema, false, true⟩
      ⟨1, registry, .object schema, some name⟩ := by
  have hread := SchemaNode.toSchema?_of_normal hclean
  have hmakes : ∀ inner, ¬ Call.Makes document ⟨1, registry, .object schema, some name⟩ inner := by
    intro inner hmakes
    cases hmakes with
    | position read visit before =>
      obtain rfl := Option.some.inj (hread.symm.trans read)
      rw [hvisit] at visit
      cases visit
    | composition read visit free flattens =>
      obtain rfl := Option.some.inj (hread.symm.trans read)
      rw [hvisit] at visit
      cases visit
  refine ⟨rfl, rfl, ⟨_, walk_enumeration hread hvisit, ?_⟩, ?_, ?_⟩
  · rw [Option.elim_some, entries_insertNew_of_free hfree]
  · rintro reference ⟨inner, hpath, hrefers⟩ -
    rcases ReflTransGen.cases_head hpath with rfl | ⟨next, hnext, -⟩
    · obtain ⟨other, read, visit⟩ := hrefers
      obtain rfl := Option.some.inj (hread.symm.trans read)
      exact absurd (hvisit.symm.trans visit) nofun
    · exact absurd hnext (hmakes next)
  · intro inner hpath
    obtain ⟨next, hnext, -⟩ := TransGen.head'_iff.mp hpath
    exact absurd hnext (hmakes next)

/-- Every step keeps the entries in order, when no reference uses itself. -/
theorem Ordered.step {requests : List Request} {state next : State} (hacyclic : Acyclic document)
    (hstep : Step document requests state next) (h : Ordered document state.registry) :
    Ordered document next.registry := by
  cases hstep with
  | mark => exact h
  | start =>
    intro earlier name entry later hentries
    rw [entries_keepTarget] at hentries
    exact h earlier name entry later hentries
  | finish _ _ _ _ underway returns =>
    exact h.insertNew fun _ => ⟨_, underway.prepares hacyclic returns rfl rfl⟩
  | store underway returns place =>
    exact h.insertNew fun _ => ⟨_, underway.prepares hacyclic returns place rfl⟩
  | enumerate clean visit =>
    exact h.insertNew fun hfree => ⟨_, prepares_enumeration clean visit hfree⟩

end

/-- When no reference uses itself, every entry that calls of `add` lead to comes after what it
    depends on. -/
theorem Adds.entry_preceded {document : Json} {requests : List Request} {registry : Registry}
    {earlier later : Keyed Entry} {name : String} {entry : Entry} (hacyclic : Acyclic document)
    (h : Adds document requests registry)
    (hentries : registry.entries = earlier ++ (name, entry) :: later) :
    Preceded document earlier name entry := by
  have hempty : Ordered document empty := fun _ _ _ _ h => absurd h (by simp [empty])
  have hordered : Ordered document registry :=
    h.invariant (P := fun state => Ordered document state.registry) hempty
      fun _ _ hstep hstate => hstate.step hacyclic hstep
  obtain ⟨call, hcall⟩ := hordered earlier name entry later hentries
  exact hcall.preceded

/-! ## A document without cycles -/

/-- The reference inside the shelf. -/
def bookReference : Schema where
  ref := some "#/Book"

/-- The enumeration inside the shelf. -/
def shelfKind : Schema where
  enum := some [.str "open", .str "closed"]

/-- The shelf. -/
def shelfSchema : Schema where
  properties := some [("book", .object bookReference), ("kind", .object shelfKind)]

/-- The book. -/
def bookSchema : Schema where
  type := some (.single "string")

/-- The schemas that stand somewhere in the document; the last one is for values without
    keywords. -/
def shelfSchemas : List Schema := [shelfSchema, bookReference, shelfKind, bookSchema, .empty]

theorem toSchema?_shelfSchemas {schema : Schema} (h : schema ∈ shelfSchemas) :
    (SchemaNode.object schema).toSchema? = some schema ∧ schema.allOf = none := by
  simp only [shelfSchemas, List.mem_cons, List.not_mem_nil, or_false] at h
  rcases h with rfl | rfl | rfl | rfl | rfl <;>
    exact ⟨SchemaNode.toSchema?_of_normal (Schema.normal_of_plain rfl rfl rfl nofun), rfl⟩

theorem exists_schema_of_mem_shelf {value : Json} (h : value ∈ shelf.parts) :
    ∃ schema ∈ shelfSchemas, (SchemaNode.ofJson value).toSchema? = some schema := by
  have hobject : ∀ schema ∈ shelfSchemas, SchemaNode.ofJson value = .object schema →
      ∃ schema ∈ shelfSchemas, (SchemaNode.ofJson value).toSchema? = some schema := by
    intro schema hmem hvalue
    rw [hvalue]
    exact ⟨schema, hmem, (toSchema?_shelfSchemas hmem).1⟩
  have hplain : SchemaNode.ofJson value = .bool true →
      ∃ schema ∈ shelfSchemas, (SchemaNode.ofJson value).toSchema? = some schema := by
    intro hvalue
    rw [hvalue]
    exact ⟨.empty, by simp [shelfSchemas], rfl⟩
  simp only [shelf, Json.parts, Json.partsOfFields, Json.partsOfItems, List.cons_append,
    List.nil_append, List.append_nil, List.mem_cons, List.not_mem_nil, or_false] at h
  rcases h with rfl | rfl | rfl | rfl | rfl | rfl | rfl | rfl | rfl | rfl | rfl
  · exact hobject .empty (by simp [shelfSchemas]) rfl
  · exact hobject shelfSchema (by simp [shelfSchemas]) rfl
  · exact hobject .empty (by simp [shelfSchemas]) rfl
  · exact hobject bookReference (by simp [shelfSchemas]) rfl
  · exact hplain rfl
  · exact hobject shelfKind (by simp [shelfSchemas]) rfl
  · exact hplain rfl
  · exact hplain rfl
  · exact hplain rfl
  · exact hobject bookSchema (by simp [shelfSchemas]) rfl
  · exact hplain rfl

/-- A walk of one of the schemas comes to the book only, and from the book to nothing. -/
theorem comes_in_shelf {node : SchemaNode} {place : Option String} {schema : Schema}
    {reference : String} (hread : node.toSchema? = some schema) (hmem : schema ∈ shelfSchemas)
    (hcomes : Comes shelf true (node, place) reference) :
    reference = "#/Book" ∧ schema ≠ bookSchema := by
  have hbook := (toSchema?_shelfSchemas (show bookReference ∈ shelfSchemas by simp [shelfSchemas])).1
  have hkind := (toSchema?_shelfSchemas (show shelfKind ∈ shelfSchemas by simp [shelfSchemas])).1
  rw [comes_iff_visit hread] at hcomes
  simp only [shelfSchemas, List.mem_cons, List.not_mem_nil, or_false] at hmem
  rcases hmem with rfl | rfl | rfl | rfl | rfl
  · obtain ⟨inner, hinner, hcomes⟩ := hcomes
    rcases List.mem_cons.mp hinner with rfl | hinner
    · rw [comes_iff_visit hbook] at hcomes
      exact ⟨hcomes, nofun⟩
    · obtain rfl := List.mem_singleton.mp hinner
      rw [comes_iff_visit hkind] at hcomes
      exact hcomes.elim
  · exact ⟨hcomes, nofun⟩
  · exact hcomes.elim
  · obtain ⟨inner, hinner, -⟩ := hcomes
    cases hinner
  · obtain ⟨inner, hinner, -⟩ := hcomes
    cases hinner

theorem uses_in_shelf {reference other : String} (h : Uses shelf reference other) :
    other = "#/Book" ∧ reference ≠ "#/Book" := by
  obtain ⟨-, target, stored, fuel, registry, hresolves, hstores, hvisits⟩ := h
  obtain ⟨value, hvalue, rfl⟩ := Option.map_eq_some_iff.mp hresolves
  obtain ⟨schema, hmem, hschema⟩ :=
    exists_schema_of_mem_shelf (Reference.mem_parts_of_resolve hvalue)
  have hstored := hstores.toSchema?_eq hschema (toSchema?_shelfSchemas hmem).2
  obtain ⟨hother, hne⟩ := comes_in_shelf hstored hmem hvisits.comes
  refine ⟨hother, fun hreference => hne ?_⟩
  -- The book is what the reference leads to.
  have hbook : Reference.resolve shelf "#/Book" = some (.obj [("type", .str "string")]) := by
    have hinternal : Reference.isInternal "#/Book" = true := by decide +kernel
    have htokens : Reference.tokens "#/Book" = ["Book"] := by decide +kernel
    rw [Reference.resolve, if_pos hinternal, htokens]
    rfl
  rw [hreference, hbook] at hvalue
  obtain rfl := Option.some.inj hvalue
  have hread := (toSchema?_shelfSchemas (show bookSchema ∈ shelfSchemas by simp [shelfSchemas])).1
  exact Option.some.inj (hschema.symm.trans hread)

theorem acyclic_shelf : Acyclic shelf := by
  intro reference hcycle
  -- The last step leads to the book, and no step starts from it.
  obtain ⟨last, -, hlast⟩ := TransGen.tail'_iff.mp hcycle
  obtain ⟨next, hfirst, -⟩ := TransGen.head'_iff.mp hcycle
  exact (uses_in_shelf hfirst).2 (uses_in_shelf hlast).1

/-- The shelf comes after the book and after the enumeration inside it. -/
theorem shelf_preceded_by_book : Acyclic shelf ∧ ∃ registry book kind entry,
    Adds shelf [asking "#/Shelf"] registry ∧
      registry.entries = [("Book", book), ("ShelfKind", kind)] ++ ("Shelf", entry) :: [] ∧
        Preceded shelf [("Book", book), ("ShelfKind", kind)] "Shelf" entry := by
  have hends : (addAll shelf 16 empty [asking "#/Shelf"]).map names =
      some ["Book", "ShelfKind", "Shelf"] := by decide +kernel
  obtain ⟨registry, hregistry, hnames⟩ := Option.map_eq_some_iff.mp hends
  have hadds := adds_of_addAll hregistry
  obtain ⟨⟨_, book⟩, afterBook, hentries, rfl, hkind⟩ := List.map_eq_cons_iff.mp hnames
  obtain ⟨⟨_, kind⟩, afterKind, rfl, rfl, hshelf⟩ := List.map_eq_cons_iff.mp hkind
  obtain ⟨⟨_, entry⟩, afterShelf, rfl, rfl, hnone⟩ := List.map_eq_cons_iff.mp hshelf
  obtain rfl := List.map_eq_nil_iff.mp hnone
  exact ⟨acyclic_shelf, registry, book, kind, entry, hadds, hentries,
    Adds.entry_preceded acyclic_shelf hadds hentries⟩

end Registry
end TypedClient
