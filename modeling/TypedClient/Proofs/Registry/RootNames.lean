/-
  TypedClient.Proofs.Registry.RootNames

  How names come about.  A walk starts from the name of a call or of the target of a reference, and
  the names of the positions that it comes by have identifiers of keys and the suffix of
  compositions after it.  What comes after the start is alright, so that a name is no identifier
  only because of its start, or because nothing is left of it at all.
-/
import TypedClient.Proofs.Registry.Soundness
import TypedClient.Proofs.Text.Identifier

namespace TypedClient
namespace Registry

section

variable (document : Json) (requests : List Request)

/-- A walk starts from the name: the one of an inline call, or of the target of a reference. -/
inductive RootName : String → Prop where
  | shape {request : Request} (mem : request ∈ requests) (inline : request.reference? = none) :
      RootName request.name
  | target {reference : String} (referred : Referred document requests reference) :
      RootName (Reference.name reference)

end

/-- The name of a position at or under one with the first name. -/
inductive NamedUnder (root : String) : String → Prop where
  | self : NamedUnder root root
  | property {name : String} (key : String) (under : NamedUnder root name) :
      NamedUnder root (name ++ Text.identifier key)
  | child {name : String} (under : NamedUnder root name) :
      NamedUnder root (Text.enumChildName name)

/-! ## Walking -/

/-- The name of a position is the one of its parent with a key or the suffix, if there is one. -/
theorem place_of_visit {schema : Schema} {place innerPlace : Option String}
    {positions : List (SchemaNode × Option String)} {inner : SchemaNode}
    (h : schema.visit place = .positions positions) (hmem : (inner, innerPlace) ∈ positions) :
    innerPlace = none ∨ (∃ properties key, schema.properties = some properties ∧
      (key, inner) ∈ properties ∧ innerPlace = place.map (· ++ Text.identifier key)) ∨
      innerPlace = place.map Text.enumChildName := by
  unfold Schema.visit at h
  split at h
  · next properties hproperties =>
    cases h
    obtain ⟨⟨key, property⟩, hproperty, heq⟩ := List.mem_map.mp hmem
    obtain ⟨rfl, rfl⟩ := Prod.mk.inj heq
    exact Or.inr (Or.inl ⟨properties, key, hproperties, hproperty, rfl⟩)
  split at h
  · cases h
    obtain ⟨values, -, heq⟩ := List.mem_map.mp hmem
    exact Or.inl (Prod.mk.inj heq).2.symm
  split at h
  · cases h
  split at h
  · cases h
  split at h
  · cases h
  split at h
  · cases h
    obtain ⟨member, -, heq⟩ := List.mem_map.mp hmem
    exact Or.inr (Or.inr (Prod.mk.inj heq).2.symm)
  · cases h
    refine Or.inl ?_
    split at hmem
    · exact (Prod.mk.inj (List.mem_singleton.mp hmem)).2
    · obtain ⟨item, -, heq⟩ := List.mem_map.mp hmem
      exact (Prod.mk.inj heq).2.symm
    · cases hmem

variable {document : Json} {requests : List Request}

/-- A position with a name has it under the one that the walk started from. -/
theorem Reached.namedUnder {node : SchemaNode} {place : Option String}
    (h : Reached document requests node place) {name : String} (hplace : place = some name) :
    ∃ root, RootName document requests root ∧ NamedUnder root name := by
  induction h generalizing name with
  | shape mem inline _ =>
    cases hplace
    exact ⟨_, .shape mem inline, .self⟩
  | answered mem answers _ _ =>
    cases hplace
    exact ⟨_, .target (Or.inl ⟨_, mem, answers⟩), .self⟩
  | target reached read visit _ _ _ =>
    cases hplace
    exact ⟨_, .target (Or.inr ⟨_, _, _, reached, read, visit⟩), .self⟩
  | position _ _ visit mem ih =>
    rcases place_of_visit visit mem with hnone | ⟨-, key, -, -, hkey⟩ | hchild
    · rw [hplace] at hnone
      cases hnone
    · obtain ⟨parent, hparent, rfl⟩ := Option.map_eq_some_iff.mp (hkey.symm.trans hplace)
      obtain ⟨root, hroot, hunder⟩ := ih hparent
      exact ⟨root, hroot, hunder.property key⟩
    · obtain ⟨parent, hparent, rfl⟩ := Option.map_eq_some_iff.mp (hchild.symm.trans hplace)
      obtain ⟨root, hroot, hunder⟩ := ih hparent
      exact ⟨root, hroot, hunder.child⟩
  | composition _ _ _ _ ih =>
    obtain ⟨parent, hparent, rfl⟩ := Option.map_eq_some_iff.mp hplace
    obtain ⟨root, hroot, hunder⟩ := ih hparent
    exact ⟨root, hroot, hunder.child⟩
  | congr _ _ ih => exact ih hplace

/-- Every entry has its name under one that a walk started from. -/
theorem Adds.namedUnder {registry : Registry} (h : Adds document requests registry)
    {name : String} (hname : name ∈ registry.names) :
    ∃ root, RootName document requests root ∧ NamedUnder root name := by
  obtain ⟨entry, hentry, rfl⟩ := List.mem_map.mp hname
  exact (h.sound.entry entry hentry).reached.namedUnder rfl

/-! ## What the names are made of -/

/-- The name of a child has a part of names, which may be empty, after the one of its parent. -/
theorem exists_enumChildName_eq (parent : String) :
    ∃ tail, Text.enumChildName parent = parent ++ tail ∧ Text.IsPart tail := by
  unfold Text.enumChildName
  split
  · exact ⟨"", String.append_empty.symm, Text.isPart_empty⟩
  · exact ⟨Text.enumSuffix, rfl, Text.isPart_enumSuffix⟩

/-- What a name has after the one that it is under is a part of names. -/
theorem NamedUnder.exists_tail {root name : String} (h : NamedUnder root name) :
    ∃ tail, name = root ++ tail ∧ Text.IsPart tail := by
  induction h with
  | self => exact ⟨"", String.append_empty.symm, Text.isPart_empty⟩
  | property key _ ih =>
    obtain ⟨tail, rfl, htail⟩ := ih
    exact ⟨_, String.append_assoc, htail.append (Text.isPart_identifier key)⟩
  | child _ ih =>
    obtain ⟨tail, rfl, htail⟩ := ih
    obtain ⟨last, hlast, hpart⟩ := exists_enumChildName_eq (root ++ tail)
    exact ⟨tail ++ last, hlast.trans String.append_assoc, htail.append hpart⟩

/-- A name is an identifier if the one that it is under is, or if that one is empty and something
    comes after it. -/
theorem NamedUnder.isIdentifier_iff {root name : String} (h : NamedUnder root name) :
    Text.isIdentifier name = true ↔ Text.isIdentifier root = true ∨ (root = "" ∧ name ≠ "") := by
  obtain ⟨tail, rfl, htail⟩ := h.exists_tail
  exact htail.isIdentifier_append_iff

theorem NamedUnder.startsSmall {root name : String} (h : NamedUnder root name)
    (hroot : Text.startsSmall root = false) : Text.startsSmall name = false := by
  obtain ⟨tail, rfl, htail⟩ := h.exists_tail
  exact Text.startsSmall_append hroot htail.small

end Registry
end TypedClient
