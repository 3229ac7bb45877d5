/-
  TypedClient.Proofs.Fragment.OwnNames

  Positions that print the name which their own schema is offered for, and whose schema the entry
  under that name is for.

  Such a name is put together from the parent and the key, and many positions can have the same
  one: keys that differ in their punctuation only, and all the members of a union.  The name keeps
  the schema that came first, and every position with the name prints it.  So a position is
  misled just when another schema came before its own, or when no walk entered the position and
  the name is another schema's.
-/
import TypedClient.Proofs.Fragment.Absence

namespace TypedClient

open Relation

section

variable (registry : Registry) (document : Json) (requests : List Registry.Request)

/-- Rendering comes to a nested position, and prints the name that the schema of the position is
    offered for. -/
structure PrintsOwnName (point : Point) (name : String) (own : SchemaNode) : Prop where
  rendered : Rendered registry document point
  nested : point.position = .nested
  offers : Registry.Offers document (point.node, point.name) name own
  prints : ∃ fuel, Fragment.ofNode registry document fuel point.node point.name point.position =
    some (some (.named name))

/-- The entry under the name that a position prints is for another schema. -/
inductive Misled (point : Point) (name : String) (own : SchemaNode) : Prop where
  /-- Another schema had the name when a walk came to the position, or got it within that walk. -/
  | forestalled
      (forestalled : registry.Forestalled document requests point.node point.name name own)
  /-- No walk came to the position, which is beyond a step that walks overlook, and in the course of
      the calls another schema was put under the name. -/
  | overlooked {entry : Entry} (missed : ¬ registry.Entered document requests point.node point.name)
      (beyond : BeyondOverlooked registry document requests point)
      (placed : registry.Placed document requests name entry) (other : entry.schema ≠ own)

end

section

variable {document : Json} {requests : List Registry.Request} {registry : Registry} {point : Point}
  {name : String} {own : SchemaNode}

/-- A name that is printed has an entry. -/
theorem PrintsOwnName.has (h : PrintsOwnName registry document point name own) :
    registry.has name = true := by
  obtain ⟨fuel, hprints⟩ := h.prints
  have hanswers := (Fragment.ofNode_answers registry document fuel).1 _ _ _ _ hprints
  exact hanswers.registered (.named name) name rfl (List.mem_singleton.mpr rfl)

/-- A position that offers its schema for a name was entered, or is beyond a step that walks
    overlook. -/
theorem PrintsOwnName.entered_or_beyond (hadds : Registry.Adds document requests registry)
    (h : PrintsOwnName registry document point name own) :
    registry.Entered document requests point.node point.name ∨
      BeyondOverlooked registry document requests point := by
  obtain ⟨entry, hentry, hpath⟩ := h.rendered
  rcases covered_path hadds ⟨_, covered_ofEntry hadds hentry⟩ hpath with
    ⟨place, hcovered⟩ | ⟨before, after, hbefore, hstep, hover, hafter⟩
  · -- Only a position with a name offers its schema, and then it was entered under this name.
    have hnamed : point.name ≠ none := by
      intro hnone
      have hoffers := h.offers
      rw [hnone] at hoffers
      cases hoffers
    have hplace : point.name = place := hcovered.name.resolve_left hnamed
    exact Or.inl (hplace ▸ hcovered.entered)
  · exact Or.inr ⟨before, after, ⟨entry, hentry, hbefore⟩, hstep, hover, hafter⟩

/-- The entry under the name that a position prints is for the schema of the position, unless the
    position is misled. -/
theorem PrintsOwnName.exists_entry (hadds : Registry.Adds document requests registry)
    (h : PrintsOwnName registry document point name own) :
    ∃ entry, registry.get? name = some entry ∧
      (entry.schema = own ↔ ¬ Misled registry document requests point name own) := by
  by_cases hentered : registry.Entered document requests point.node point.name
  · obtain ⟨entry, hentry, hholds⟩ := hentered.holds_iff h.offers
    refine ⟨entry, hentry, ?_⟩
    constructor
    · intro hown hmisled
      cases hmisled with
      | forestalled forestalled => exact hholds.mp hown forestalled
      | overlooked missed => exact missed hentered
    · intro hkept
      exact hholds.mpr fun hforestalled => hkept (.forestalled hforestalled)
  · obtain ⟨entry, hentry⟩ := Registry.has_iff_exists.mp h.has
    refine ⟨entry, hentry, ?_⟩
    constructor
    · intro hown hmisled
      cases hmisled with
      | forestalled forestalled =>
        -- A call that is forestalled would have entered the position.
        obtain ⟨call, -, hoccurs, hplace, hsame, -⟩ := forestalled
        exact hentered ⟨call, hoccurs, hplace, hsame⟩
      | overlooked _ _ placed other =>
        obtain rfl := Option.some.inj (hentry.symm.trans placed.get?)
        exact other hown
    · intro hkept
      have hbeyond := (h.entered_or_beyond hadds).resolve_left hentered
      by_contra hother
      exact hkept (.overlooked hentered hbeyond (hadds.get?_iff_placed.mp hentry) hother)

end

/-- A nested enumeration or composition that is printed by its own name: there is an entry under
    the name, with an origin, and the entry is for the very schema of the position just when the
    position is not misled.  Of two positions that print one name for different schemas, one is
    misled. -/
theorem own_name_faithful_iff_not_misled {document : Json} {requests : List Registry.Request}
    {registry : Registry} (h : Registry.Adds document requests registry) :
    (∀ point name own, PrintsOwnName registry document point name own →
      ∃ entry, registry.get? name = some entry ∧
        Registry.Origin document requests registry name entry.schema ∧
        (entry.schema = own ↔ ¬ Misled registry document requests point name own)) ∧
    (∀ first second name own own', PrintsOwnName registry document first name own →
      PrintsOwnName registry document second name own' → own ≠ own' →
        Misled registry document requests first name own ∨
          Misled registry document requests second name own') := by
  constructor
  · intro point name own hprints
    obtain ⟨entry, hentry, hholds⟩ := hprints.exists_entry h
    have horigin := h.sound.origin (name, entry) (Keyed.mem_of_get? hentry)
    exact ⟨entry, hentry, horigin, hholds⟩
  · intro first second name own own' hfirst hsecond hne
    by_contra hneither
    rw [not_or] at hneither
    obtain ⟨entry, hentry, hholds⟩ := hfirst.exists_entry h
    obtain ⟨entry', hentry', hholds'⟩ := hsecond.exists_entry h
    -- There is one entry under the name, and it would be for both schemas.
    have hown : entry.schema = own := hholds.mpr hneither.1
    have hown' : entry'.schema = own' := hholds'.mpr hneither.2
    obtain rfl := Option.some.inj (hentry.symm.trans hentry')
    exact hne (hown.symm.trans hown')

/-! ### Two keys that give one name -/

/-- An enumeration of one text. -/
def choiceOf (value : String) : Schema where
  enum := some [.str value]

/-- Two choices whose keys differ in their punctuation only. -/
def choices : Keyed SchemaNode :=
  [("a-b", .object (choiceOf "x")), ("aB", .object (choiceOf "y"))]

/-- An object with the two choices. -/
def siblings : Schema where
  properties := some choices

/-- The call that registers the object. -/
def siblingsCall : Registry.Request := ⟨"Thing", .object siblings, true⟩

/-- The entry of the first choice, and the one of the object. -/
def siblingsRegistry : Registry where
  entries := [("ThingAB", ⟨.object (choiceOf "x"), false, true⟩),
    ("Thing", ⟨.object siblings, false, false⟩)]

theorem toSchema?_choiceOf (value : String) :
    (SchemaNode.object (choiceOf value)).toSchema? = some (choiceOf value) :=
  SchemaNode.toSchema?_of_normal (Schema.normal_of_plain rfl rfl rfl nofun)

theorem toSchema?_siblings : (SchemaNode.object siblings).toSchema? = some siblings :=
  SchemaNode.toSchema?_of_normal (Schema.normal_of_plain rfl rfl rfl nofun)

/-- Both keys give the name of the first one. -/
theorem siblings_name : "Thing" ++ Text.identifier "a-b" = "ThingAB" ∧
    "Thing" ++ Text.identifier "aB" = "ThingAB" := by decide +kernel

theorem adds_siblings : Registry.Adds (.obj []) [siblingsCall] siblingsRegistry := by
  have hchoice : ∀ registry value, Registry.walk (.obj []) 1 registry (.object (choiceOf value))
      (some "ThingAB") = some (registry.insertNew "ThingAB" ⟨.object (choiceOf value), false,
        true⟩) := fun registry value => by
    rw [Registry.walk_enumeration (toSchema?_choiceOf value) rfl]
    rfl
  have hvisit : siblings.visit (some "Thing") = .positions
      [(.object (choiceOf "x"), some "ThingAB"), (.object (choiceOf "y"), some "ThingAB")] := by
    have hvisit : siblings.visit (some "Thing") = .positions
        [(.object (choiceOf "x"), some ("Thing" ++ Text.identifier "a-b")),
          (.object (choiceOf "y"), some ("Thing" ++ Text.identifier "aB"))] :=
      rfl
    rwa [siblings_name.1, siblings_name.2] at hvisit
  have hwalk : Registry.walk (.obj []) 2 .empty (.object siblings) (some "Thing") =
      some { entries := [("ThingAB", ⟨.object (choiceOf "x"), false, true⟩)] } := by
    rw [Registry.walk_positions toSchema?_siblings hvisit, List.foldlM_cons, hchoice]
    change (Registry.walk (.obj []) 1 _ (.object (choiceOf "y")) _ >>= fun registry =>
      some registry) = _
    rw [hchoice]
    rfl
  have hclean : (SchemaNode.object siblings).cleanup = .object siblings :=
    congrArg SchemaNode.object (Option.some.inj toSchema?_siblings)
  suffices hadd : Registry.add (.obj []) 2 .empty "Thing" (.object siblings) true =
      some ("Thing", siblingsRegistry) from .snoc siblingsCall .nil hadd
  unfold Registry.add
  dsimp only
  rw [hclean]
  change (Registry.walk (.obj []) 2 .empty (.object siblings) (some "Thing") >>= fun registry =>
    some ("Thing", registry.insertNew "Thing" ⟨.object siblings, false, false⟩)) = _
  rw [hwalk]
  rfl

/-- A choice of the object prints the name. -/
theorem siblings_prints (key value : String) (hname : "Thing" ++ Text.identifier key = "ThingAB")
    (hmem : (key, .object (choiceOf value)) ∈ choices) :
    PrintsOwnName siblingsRegistry (.obj []) ⟨.object (choiceOf value), some "ThingAB", .nested⟩
      "ThingAB" (.object (choiceOf value)) where
  rendered := by
    refine ⟨("Thing", ⟨.object siblings, false, false⟩), by simp [siblingsRegistry],
      ReflTransGen.single ?_⟩
    have houtline : siblings.cleanup.outline siblingsRegistry (.obj []) (some "Thing")
        (Point.ofEntry ("Thing", ⟨.object siblings, false, false⟩)).position =
          .parts false
            (choices.map (Schema.propertyPart siblingsRegistry (.obj []) (some "Thing"))) := by
      rw [Option.some.inj toSchema?_siblings]
      rfl
    have hpart : Schema.propertyPart siblingsRegistry (.obj []) (some "Thing")
        (key, .object (choiceOf value)) = (.object (choiceOf value), some "ThingAB") := by
      unfold Schema.propertyPart
      dsimp only
      rw [toSchema?_choiceOf, Option.map_some, hname]
      rfl
    have hstep := RenderStep.part houtline (List.mem_map.mpr ⟨_, hmem, rfl⟩)
    rw [hpart] at hstep
    exact hstep
  nested := rfl
  offers := .enumeration (toSchema?_choiceOf value) rfl
  prints := by
    refine ⟨2, ?_⟩
    change Fragment.ofSchema siblingsRegistry (.obj []) 1 (choiceOf value).cleanup
      (some "ThingAB") .nested = _
    rw [Option.some.inj (toSchema?_choiceOf value)]
    rfl

/-- The second choice prints the name of the first one. -/
theorem siblings_mislead : Registry.Adds (.obj []) [siblingsCall] siblingsRegistry ∧
    ∃ point, PrintsOwnName siblingsRegistry (.obj []) point "ThingAB" (.object (choiceOf "y")) ∧
      siblingsRegistry.get? "ThingAB" = some ⟨.object (choiceOf "x"), false, true⟩ ∧
      Misled siblingsRegistry (.obj []) [siblingsCall] point "ThingAB"
        (.object (choiceOf "y")) := by
  have hfirst := siblings_prints "a-b" "x" siblings_name.1 (by simp [choices])
  have hsecond := siblings_prints "aB" "y" siblings_name.2 (by simp [choices])
  have hne : SchemaNode.object (choiceOf "x") ≠ .object (choiceOf "y") := by simp [choiceOf]
  have hentry : siblingsRegistry.get? "ThingAB" = some ⟨.object (choiceOf "x"), false, true⟩ := rfl
  refine ⟨adds_siblings, _, hsecond, hentry, ?_⟩
  obtain ⟨hholds, heither⟩ := own_name_faithful_iff_not_misled adds_siblings
  rcases heither _ _ _ _ _ hfirst hsecond hne with hmisled | hmisled
  · -- The entry is the one of the first choice.
    obtain ⟨entry, hget, -, hown⟩ := hholds _ _ _ hfirst
    obtain rfl := Option.some.inj (hentry.symm.trans hget)
    exact absurd hmisled (hown.mp rfl)
  · exact hmisled

end TypedClient
