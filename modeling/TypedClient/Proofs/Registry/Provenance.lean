/-
  TypedClient.Proofs.Registry.Provenance

  Which call of a walk an entry comes from.

  A walk makes calls, and so do these: for the positions inside, for what compositions are
  flattened to, and for the targets of references.  A call that comes to an enumeration, a
  composition or a reference puts an entry under its name, if the name is free by then.  An entry
  after the walk was there before, or one of the calls has put it there (`Call.Returns.get?_iff`).

  The schema that `add` is given is put under its name after its walk.  So the name is lost to a
  position on the way whenever that derives the very same name.  Names mostly grow on the way
  (`Call.Within.place_cases`), and only three kinds of names are exposed to such a loss (`Exposed`):
  the key of a property adds nothing when it has no letter, a name that ends in `Enum` is the one
  derived from itself, and below a reference the names start over with the one of the reference.
-/
import TypedClient.Proofs.Registry.Consistency
import TypedClient.Proofs.Registry.Occurrence
import TypedClient.Proofs.Registry.RootNames

namespace TypedClient
namespace Registry

open Relation

variable {document : Json}

/-- After a call the entry under a name is the one from before, or the one that some call within it
    has put there. -/
theorem Call.Returns.get?_iff {call : Call} {after : Registry} {name : String} {entry : Entry}
    (h : call.Returns document after) : after.get? name = some entry ↔
      call.registry.get? name = some entry ∨ call.PutsWithin document name entry := by
  constructor
  · exact h.becomes.get?
  · rintro (hfound | hputs)
    · exact (walk_extends h).get? hfound
    · exact hputs.get? h

/-! ## How names grow -/

namespace Call

/-- The call comes to an object of which a property has a key that no identifier is left of. -/
def HasBlankKey (call : Call) : Prop :=
  ∃ schema properties key node, call.node.toSchema? = some schema ∧
    schema.properties = some properties ∧ (key, node) ∈ properties ∧ Text.identifier key = ""

variable {call inner start : Call} {place name : String}

/-- The name of a position is the one of its parent and something after it, or the name of a
    reference that has just been marked.  What comes after is empty only for a key that nothing is
    left of, and for a child whose parent ends in the suffix already. -/
theorem Leads.place_cases (h : Leads document call inner) (hplace : inner.place = some place) :
    (∃ parent tail, call.place = some parent ∧ place = parent ++ tail ∧
      (tail = "" → call.HasBlankKey ∨ Text.enumChildName parent = parent)) ∨
    ∃ reference, place = Reference.name reference ∧ reference ∉ call.registry.visited ∧
      reference ∈ inner.registry.visited := by
  have hchild : ∀ outer : Option String, outer.map Text.enumChildName = some place →
      ∃ parent tail, outer = some parent ∧ place = parent ++ tail ∧
        (tail = "" → call.HasBlankKey ∨ Text.enumChildName parent = parent) := by
    intro outer houter
    obtain ⟨parent, rfl, rfl⟩ := Option.map_eq_some_iff.mp houter
    obtain ⟨tail, htail, -⟩ := exists_enumChildName_eq parent
    refine ⟨parent, tail, rfl, htail, fun hempty => Or.inr ?_⟩
    rw [htail, hempty, String.append_empty]
  cases h with
  | opens refers opens =>
    have hname := Option.some.inj (hplace.symm.trans opens.place)
    exact Or.inr ⟨_, hname, opens.fresh, opens.marked⟩
  | makes makes =>
    refine Or.inl ?_
    cases makes with
    | composition => exact hchild _ hplace
    | @position fuel registry middle node outer schema first rest site read visit before =>
      have hmem : (site.1, site.2) ∈ first ++ site :: rest := by simp
      rcases place_of_visit visit hmem with hnone | ⟨properties, key, hproperties, hkey, heq⟩ | heq
      · cases hnone.symm.trans hplace
      · obtain ⟨parent, hparent, rfl⟩ := Option.map_eq_some_iff.mp (heq.symm.trans hplace)
        exact ⟨parent, Text.identifier key, hparent, rfl, fun hempty =>
          Or.inl ⟨schema, properties, key, site.1, read, hproperties, hkey, hempty⟩⟩
      · exact hchild _ (heq.symm.trans hplace)

/-- Within a call every other position has a longer name than the call, or one under the name of a
    reference that was marked on the way, as long as every key leaves something and the name of the
    call does not end in the suffix. -/
theorem Within.place_cases (h : Within document start inner) (hname : start.place = some name)
    (hsuffix : Text.enumChildName name ≠ name)
    (hkeys : ∀ call, Within document start call → ¬ call.HasBlankKey) :
    inner = start ∨ ∀ place, inner.place = some place →
      (∃ tail, tail ≠ "" ∧ place = name ++ tail) ∨
      ∃ reference rest, reference ∉ start.registry.visited ∧
        reference ∈ inner.registry.visited ∧ place = Reference.name reference ++ rest := by
  induction h with
  | refl => exact Or.inl rfl
  | @tail call inner hwithin hlast ih =>
    refine Or.inr fun place hplace => ?_
    have hle : Extends call.registry inner.registry := Within.extends (.single hlast)
    rcases hlast.place_cases hplace with ⟨parent, tail, hparent, rfl, hempty⟩ |
      ⟨reference, rfl, hfresh, hmarked⟩
    · rcases ih with rfl | ih
      · -- The first step away from the call adds something.
        obtain rfl := Option.some.inj (hname.symm.trans hparent)
        refine Or.inl ⟨tail, fun heq => ?_, rfl⟩
        exact (hempty heq).elim (hkeys _ hwithin) hsuffix
      · rcases ih parent hparent with ⟨first, hfirst, rfl⟩ |
          ⟨reference, rest, hfresh, hmarked, rfl⟩
        · refine Or.inl ⟨first ++ tail, fun heq => hfirst ?_, String.append_assoc⟩
          exact (String.append_eq_empty_iff.mp heq).1
        · exact Or.inr ⟨reference, rest ++ tail, hfresh, hle.visited.subset hmarked,
            String.append_assoc⟩
    · have hbefore := Within.extends hwithin
      exact Or.inr ⟨reference, "", fun hmem => hfresh (hbefore.visited.subset hmem), hmarked,
        String.append_empty.symm⟩

end Call

/-! ## The given schema -/

/-- A position that the call comes to derives the name, and has put another entry there. -/
def TakenWithin (document : Json) (call : Call) (name : String) (own : Entry) : Prop :=
  ∃ inner entry, Call.Within document call inner ∧ Derives inner.site name ∧
    inner.Puts document name entry ∧ entry ≠ own

/-- What makes it possible that the name of a call is taken within it. -/
inductive Exposed (document : Json) (call : Call) (after : Registry) (name : String) : Prop where
  /-- The name ends in the suffix, so that it is the one derived from itself. -/
  | suffix (same : Text.enumChildName name = name)
  /-- A key leaves nothing, so that the property has the name of its parent. -/
  | key {inner : Call} (within : Call.Within document call inner) (blank : inner.HasBlankKey)
  /-- The name starts with the one of a reference that gets marked. -/
  | reference {reference rest : String} (fresh : reference ∉ call.registry.visited)
      (marked : reference ∈ after.visited) (starts : name = Reference.name reference ++ rest)

/-- A derived name is the name of the position, or that and something after it. -/
theorem Derives.exists_tail {site : Site} {name : String} (h : Derives site name) :
    ∃ place tail, site.2 = some place ∧ name = place ++ tail := by
  cases h with
  | enumeration => exact ⟨name, "", rfl, String.append_empty.symm⟩
  | @composition node schema parent =>
    obtain ⟨tail, htail, -⟩ := exists_enumChildName_eq parent
    exact ⟨parent, tail, rfl, htail⟩

section

variable {registry after : Registry} {fuel : Nat} {name answer : String} {root stored : SchemaNode}
  {asStruct : Bool}

/-- The name of a call is taken within it only when it is exposed to that. -/
theorem TakenWithin.exposed {start : Call} {own : Entry} (h : TakenWithin document start name own)
    (hname : start.place = some name) (hroot : ¬ Derives start.site name)
    (hreturns : start.Returns document after) : Exposed document start after name := by
  by_contra hnot
  obtain ⟨inner, entry, hwithin, hderives, -, -⟩ := h
  obtain ⟨place, last, hplace, hlast⟩ := hderives.exists_tail
  rcases hwithin.place_cases hname (fun hsame => hnot (.suffix hsame))
    (fun call hcall hblank => hnot (.key hcall hblank)) with rfl | hcases
  · exact hroot hderives
  rcases hcases place hplace with ⟨tail, htail, rfl⟩ | ⟨reference, rest, hfresh, hmarked, rfl⟩
  · -- The position has a longer name, and the derived one is not shorter.
    have hempty : tail = "" ∧ last = "" := by
      simpa [String.toList_append, List.append_assoc] using congrArg String.toList hlast
    exact htail hempty.1
  · obtain ⟨middle, hmiddle, hle⟩ := hwithin.returns hreturns
    have hlater := (walk_extends hmiddle).trans hle
    exact hnot (.reference hfresh (hlater.visited.subset hmarked)
      (hlast.trans String.append_assoc))

/-- What is put under a name is for a position that derives the name, or for a reference that gets
    marked and has the name. -/
theorem Call.Puts.derives_or_marks {call : Call} {entry : Entry}
    (h : call.Puts document name entry) (hreturns : call.Returns document after) :
    Derives call.site name ∨ ∃ reference, Reference.name reference = name ∧
      reference ∉ call.registry.visited ∧ reference ∈ after.visited := by
  cases h with
  | enumeration read visit _ => exact Or.inl (.enumeration read visit)
  | composition read visit _ _ _ => exact Or.inl (.composition read visit)
  | @reference fuel registry walked node place reference inner refers opens returns _ =>
    obtain ⟨last, hlast, rfl⟩ := opens.inserts_of_refers refers hreturns
    exact Or.inr ⟨reference, rfl, opens.fresh, (walk_extends hlast).visited.subset opens.marked⟩

theorem Exposed.mono {call : Call} {later : Registry} (h : Exposed document call after name)
    (hle : Extends after later) : Exposed document call later name := by
  cases h with
  | suffix same => exact .suffix same
  | key within blank => exact .key within blank
  | reference fresh marked starts => exact .reference fresh (hle.visited.subset marked) starts

/-- A stored schema that is no enumeration does not derive its own name. -/
theorem not_derives_of_stores (hstores : root.Stores document stored)
    (hplain : stored.isEnumLike = false) : ¬ Derives (stored, some name) name := by
  have hread : ∀ {schema : Schema}, stored.toSchema? = some schema →
      schema.allOf = none ∧ schema.isEnumLike = false := by
    intro schema hschema
    refine ⟨hstores.allOf_eq_none hschema, ?_⟩
    cases stored with
    | object other =>
      rw [SchemaNode.toSchema?_of_normal hstores.clean.1] at hschema
      exact Option.some.inj hschema ▸ hplain
    | bool admits =>
      cases admits with
      | true => exact Option.some.inj hschema ▸ rfl
      | false => cases hschema
  intro hderives
  generalize hsite : (stored, some name) = site at hderives
  cases hderives with
  | enumeration read visit =>
    obtain ⟨rfl, -⟩ := Prod.mk.inj hsite
    cases (hread read).2.symm.trans (isEnumLike_of_visit visit)
  | composition read visit =>
    obtain ⟨rfl, -⟩ := Prod.mk.inj hsite
    have hsome := allOf_isSome_of_visit visit
    rw [(hread read).1] at hsome
    cases hsome

/-- A schema that is neither a reference nor an enumeration is stored under the name that it is
    given, cleaned and flattened, just when no position on the way has put another entry there
    first: provided that the name was free, and that no reference of that name gets marked.  It
    happens only to a name that is exposed to it. -/
theorem add_stores_iff_not_takenWithin (hinline : root.cleanup.object?.bind (·.ref) = none)
    (hfree : registry.has name = false) (hstores : root.Stores document stored)
    (hplain : stored.isEnumLike = false)
    (hadd : registry.add document fuel name root asStruct = some (answer, after))
    (hmarked : ∀ reference ∈ after.visited, reference ∉ registry.visited →
      Reference.name reference ≠ name) :
    answer = name ∧ after.has name = true ∧
      (after.get? name = some ⟨stored, !asStruct, false⟩ ↔
        ¬ TakenWithin document ⟨fuel, registry, stored, some name⟩ name
          ⟨stored, !asStruct, false⟩) ∧
      (TakenWithin document ⟨fuel, registry, stored, some name⟩ name ⟨stored, !asStruct, false⟩ →
        Exposed document ⟨fuel, registry, stored, some name⟩ after name) := by
  have hnone : (Request.mk name root asStruct).reference? = none := hinline
  obtain ⟨hanswer, hcases⟩ := @add_cases _ _ _ _ ⟨name, root, asStruct⟩ _ hadd
  rw [Request.answer, hnone] at hanswer
  rcases hcases with ⟨reference, hanswers, -⟩ | ⟨-, htaken, -⟩ |
    ⟨-, -, shape, walked, hshape, hwalked, rfl⟩
  · cases hnone.symm.trans hanswers
  · cases hfree.symm.trans htaken
  -- The schema is walked, and the name may be taken by then.
  obtain rfl : shape = stored := SchemaNode.Stores.unique ⟨fuel, hshape⟩ hstores
  have hreturns : Call.Returns document ⟨fuel, registry, shape, some name⟩ walked := hwalked
  rw [hplain] at hmarked ⊢
  have hlater := extends_insertNew walked name ⟨shape, !asStruct, false⟩
  refine ⟨hanswer, has_insertNew .., ?_, fun htaken =>
    (htaken.exposed rfl (not_derives_of_stores hstores hplain) hreturns).mono hlater⟩
  constructor
  · rintro hown ⟨inner, entry, hwithin, -, hputs, hne⟩
    obtain ⟨middle, hmiddle, hle⟩ := hwithin.returns hreturns
    have hentry := (hle.trans hlater).get? (hputs.get? hmiddle)
    exact hne (Option.some.inj (hentry.symm.trans hown))
  · intro hfirst
    obtain ⟨entry, hentry, htaken | rfl⟩ :=
      get?_insertNew_self walked name ⟨shape, !asStruct, false⟩
    · -- The entry came up in the walk, and is no other one.
      rcases hreturns.get?_iff.mp htaken with hbefore | ⟨inner, hwithin, hputs⟩
      · cases hfree.symm.trans (has_iff_exists.mpr ⟨entry, hbefore⟩)
      obtain ⟨middle, hmiddle, hle⟩ := hwithin.returns hreturns
      rcases hputs.derives_or_marks hmiddle with hderives | ⟨reference, hname, hfresh, hvisited⟩
      · by_contra hne
        exact hfirst ⟨inner, entry, hwithin, hderives, hputs, fun heq =>
          hne (hentry.trans (congrArg some heq))⟩
      · have hold : reference ∉ registry.visited := fun hmem =>
          hfresh (hwithin.extends.visited.subset hmem)
        exact absurd hname (hmarked reference ((hle.trans hlater).visited.subset hvisited) hold)
    · exact hentry

end

/-- An enumeration as the property of an object, under a key without a letter. -/
def digit : Schema where
  enum := some [.str "a"]

/-- The object. -/
def digits : Schema where
  properties := some [("1", .object digit)]

set_option maxRecDepth 20000 in
/-- The object is not stored under its name: the property has put its enumeration there. -/
theorem digits_takenWithin : ∃ after,
    empty.add (.obj []) 8 "Thing" (.object digits) true = some ("Thing", after) ∧
    after.visited = [] ∧ after.get? "Thing" = some ⟨.object digit, false, true⟩ ∧
    TakenWithin (.obj []) ⟨8, empty, .object digits, some "Thing"⟩ "Thing"
      ⟨.object digits, false, false⟩ := by
  have hnormal : Schema.Normal digits := Schema.normal_of_plain rfl rfl rfl nofun
  have hclean : (SchemaNode.object digits).cleanup = .object digits :=
    congrArg SchemaNode.object (Schema.cleanup_of_normal hnormal)
  have hstores : (SchemaNode.object digits).Stores (.obj []) (.object digits) := by
    refine ⟨1, ?_⟩
    rw [hclean]
    rfl
  have hadd : empty.add (.obj []) 8 "Thing" (.object digits) true =
      some ("Thing", { entries := [("Thing", ⟨.object digit, false, true⟩)] }) := by
    with_unfolding_all rfl
  have hinline : (SchemaNode.object digits).cleanup.object?.bind (·.ref) = none := by
    rw [hclean]
    rfl
  obtain ⟨-, -, hiff, -⟩ :=
    add_stores_iff_not_takenWithin hinline rfl hstores rfl hadd fun _ h => by cases h
  refine ⟨_, hadd, rfl, rfl, ?_⟩
  by_contra hnot
  have hstored := Option.some.inj (hiff.mpr hnot)
  exact absurd (congrArg Entry.isEnum hstored) (by decide)

end Registry
end TypedClient
