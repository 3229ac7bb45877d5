/-
  TypedClient.Proofs.Fragment.Outline

  The dispatch of rendering apart from its recursion: the positions that the fragment of a schema
  is put together from.  A fragment is there when the schema alone ensures it or one of the
  positions has one, and the names that it mentions are registered, or mentioned at a position.
-/
import TypedClient.Fragment.OfSchema
import TypedClient.Proofs.Fuel
import TypedClient.Proofs.Registry.Growth

namespace TypedClient

/-- A nested position: a node, and the name that the position has, if any. -/
abbrev Part := SchemaNode × Option String

/-- What the fragment of a clean schema is put together from. -/
inductive Outline where
  /-- Some positions; a fragment is there for sure, or when one of them has one. -/
  | parts (sure : Bool) (parts : List Part)
  /-- The name of the declaration that a reference stands for. -/
  | reference (reference : String)
  /-- What the composition is flattened to, under a name, if any. -/
  | composition (name : Option String)

namespace Schema

/-- Positions of a map: the one of its values. -/
def recordParts (schema : Schema) : Bool × List Part :=
  match schema.additionalProperties with
  | some (.object values) => (false, [(.object values, none)])
  | _ => (true, [])

/-- Positions of an array: the one of its items, or one for each. -/
def arrayParts (schema : Schema) : Bool × List Part :=
  match schema.items with
  | none => (true, [])
  | some (.single (.bool false)) => (true, [])
  | some (.single item) => (false, [(item, none)])
  | some (.tuple items) => (false, (literalBranches items).map (·, none))

/-- Positions of a schema of one type. -/
def typeParts (schema : Schema) (type : String) : Bool × List Part :=
  match type with
  | "object" => schema.recordParts
  | "array" => schema.arrayParts
  | _ => (true, [])

/-- The position that a property is rendered from: a union with `null` is left out. -/
def propertyPart (registry : Registry) (document : Json) (name : Option String)
    (property : String × SchemaNode) : Part :=
  let name := name.map (· ++ Text.identifier property.1)
  let own := property.2.toSchema?
  match (Fragment.annotated? registry document own).bind withoutNull? with
  | some other => (other, if own.any (·.ref.isNone) then name.map Text.enumChildName else none)
  | none => (property.2, name)

/-- The outline of a schema that is no object, no enumeration, no reference and no composition: a
    union, or one of some types. -/
def bareOutline (schema : Schema) (name : Option String) : Outline :=
  match schema.unionMembers?, schema.type with
  | some members, _ =>
    .parts false ((literalBranches members).map (·, name.map Text.enumChildName))
  | none, some (.single type) => .parts (schema.typeParts type).1 (schema.typeParts type).2
  | none, some (.several (type :: types)) =>
    .parts ((type :: types).any fun type => (schema.typeParts type).1)
      ((type :: types).flatMap fun type => (schema.typeParts type).2)
  | none, _ => .parts true []

/-- The declaration that a composition at a position is printed as, if it has one: at the top of a
    declaration it is written out. -/
def declaredChild? (registry : Registry) (name : Option String) (position : Position) :
    Option String :=
  if position == .nested then (name.map Text.enumChildName).filter registry.has else none

/-- The outline of a clean schema at a position. -/
def outline (registry : Registry) (document : Json) (schema : Schema) (name : Option String)
    (position : Position) : Outline :=
  match schema.properties with
  | some properties =>
    .parts properties.isEmpty (properties.map (propertyPart registry document name))
  | none =>
    if schema.typeName? == some "null" then .parts true []
    else if schema.typeName? == some "object" then
      .parts schema.recordParts.1 schema.recordParts.2
    else match schema.const, schema.enum, schema.ref, schema.allOf with
    | some _, _, _, _ => .parts true []
    | none, some _, _, _ => .parts true []
    | none, none, some reference, _ => .reference reference
    | none, none, none, some [] => .parts false []
    | none, none, none, some (_ :: _) =>
      if (declaredChild? registry name position).isSome then .parts true []
      else .composition (name.map Text.enumChildName)
    | none, none, none, none => schema.bareOutline name

end Schema

namespace Fragment

/-! ## Fragments that are there -/

theorem mem_filterMap_id {fragments : List (Option α)} {fragment : α} :
    fragment ∈ fragments.filterMap id ↔ some fragment ∈ fragments := by
  simp [List.mem_filterMap]

theorem mem_namesOfMembers {members : List Fragment} {name : String} :
    name ∈ namesOfMembers members ↔ ∃ member ∈ members, name ∈ member.names := by
  induction members with
  | nil => simp [namesOfMembers]
  | cons member rest ih => simp [namesOfMembers, ih]

theorem mem_namesOfProperties {properties : List (PropertyFacts × Fragment)} {name : String} :
    name ∈ namesOfProperties properties ↔ ∃ property ∈ properties, name ∈ property.2.names := by
  induction properties with
  | nil => simp [namesOfProperties]
  | cons property rest ih => simp [namesOfProperties, ih]

/-- A union is there when one of its members is. -/
theorem unionOf_isSome {fragments : List (Option Fragment)} :
    (unionOf fragments).isSome = true ↔ ∃ fragment, some fragment ∈ fragments := by
  unfold unionOf
  split
  · next hnil =>
    rw [List.filterMap_eq_nil_iff] at hnil
    constructor
    · intro h
      cases h
    · rintro ⟨fragment, hfragment⟩
      cases hnil _ hfragment
  · next hne =>
    refine iff_of_true rfl ?_
    obtain ⟨fragment, hfragment⟩ := List.exists_mem_of_ne_nil _ hne
    exact ⟨fragment, mem_filterMap_id.mp hfragment⟩

/-- A union mentions what its members mention. -/
theorem names_unionOf {fragments : List (Option Fragment)} {union : Fragment}
    (h : unionOf fragments = some union) {name : String} (hname : name ∈ union.names) :
    ∃ fragment, some fragment ∈ fragments ∧ name ∈ fragment.names := by
  unfold unionOf at h
  split at h
  · cases h
  · cases h
    rw [names, mem_namesOfMembers] at hname
    obtain ⟨fragment, hfragment, hname⟩ := hname
    exact ⟨fragment, mem_filterMap_id.mp hfragment, hname⟩

/-! ## Putting a fragment together -/

/-- A fragment, if there is one, is put together from what some positions are rendered to: it is
    there for sure or when one of these is, and it mentions registered names and theirs. -/
def PutTogether (render : Renderer) (registry : Registry) (outline : Bool × List Part)
    (result : Option Fragment) : Prop :=
  ∃ answers, List.Forall₂ (fun part answer => render part.1 part.2 = some answer)
      outline.2 answers ∧
    (result.isSome = true ↔ outline.1 = true ∨ ∃ fragment, some fragment ∈ answers) ∧
    ∀ fragment name, result = some fragment → name ∈ fragment.names →
      registry.has name = true ∨ ∃ answer, some answer ∈ answers ∧ name ∈ answer.names

section

variable {render : Renderer} {registry : Registry} {schema : Schema} {result : Option Fragment}

/-- A fragment that mentions no name needs no position. -/
theorem putTogether_plain {fragment : Fragment} (h : fragment.names = []) :
    PutTogether render registry (true, []) (some fragment) := by
  refine ⟨[], .nil, iff_of_true rfl (Or.inl rfl), ?_⟩
  intro other name hother hname
  cases hother
  rw [h] at hname
  cases hname

/-- The fragment of one position is put together from it. -/
theorem putTogether_position {node : SchemaNode} {name : Option String}
    (h : render node name = some result) :
    PutTogether render registry (false, [(node, name)]) result := by
  refine ⟨[result], .cons h .nil, ?_, ?_⟩
  · cases result with
    | none => simp
    | some fragment => simp
  · intro fragment mentioned hfragment hmentioned
    exact Or.inr ⟨fragment, List.mem_singleton.mpr hfragment.symm, hmentioned⟩

/-- A wrapper that mentions no name of its own changes nothing. -/
theorem PutTogether.map {outline : Bool × List Part}
    (h : PutTogether render registry outline result) {wrap : Fragment → Fragment}
    (hwrap : ∀ fragment, (wrap fragment).names = fragment.names) :
    PutTogether render registry outline (result.map wrap) := by
  obtain ⟨answers, hanswers, hsome, hnames⟩ := h
  refine ⟨answers, hanswers, ?_, ?_⟩
  · rw [Option.isSome_map]
    exact hsome
  · intro fragment mentioned hfragment hmentioned
    obtain ⟨inner, hinner, rfl⟩ := Option.map_eq_some_iff.mp hfragment
    rw [hwrap] at hmentioned
    exact hnames inner mentioned hinner hmentioned

/-- Without a position and without being sure there is no fragment. -/
theorem putTogether_absent : PutTogether render registry (false, []) none :=
  ⟨[], .nil, by simp, fun _ _ h => by cases h⟩

/-- The name of a registered declaration needs no position. -/
theorem putTogether_named {name : String} (h : registry.has name = true) :
    PutTogether render registry (true, []) (some (.named name)) := by
  refine ⟨[], .nil, iff_of_true rfl (Or.inl rfl), ?_⟩
  intro other mentioned hother hmentioned
  cases hother
  rw [names, List.mem_singleton] at hmentioned
  exact Or.inl (hmentioned ▸ h)

theorem ofEnum_putTogether {values : List Json} {name : Option String} {position : Position} :
    PutTogether render registry (true, []) (some (ofEnum registry values name position)) := by
  unfold ofEnum
  split
  · next child hchild =>
    refine putTogether_named ?_
    split at hchild
    · obtain ⟨-, henum⟩ := Option.filter_eq_some_iff.mp hchild
      rw [Registry.isEnum, Option.any_eq_true_iff_get] at henum
      rw [Registry.has_eq_isSome]
      exact henum.1
    · cases hchild
  · split
    · exact putTogether_plain rfl
    · exact putTogether_plain rfl

theorem ofUnion_putTogether {members : List SchemaNode} {name : Option String}
    (h : ofUnion render members name = some result) :
    PutTogether render registry
      (false, (Schema.literalBranches members).map (·, name.map Text.enumChildName)) result := by
  obtain ⟨answers, hanswers, h⟩ := Option.bind_eq_some_iff.mp h
  obtain rfl := Option.some.inj h
  refine ⟨answers, ?_, ?_, ?_⟩
  · rw [List.forall₂_map_left_iff]
    exact mapM_eq_some_iff.mp hanswers
  · rw [unionOf_isSome]
    simp
  · intro fragment mentioned hfragment hmentioned
    exact Or.inr (names_unionOf hfragment hmentioned)

theorem ofRecord_putTogether (h : ofRecord render schema = some result) :
    PutTogether render registry schema.recordParts result := by
  unfold ofRecord at h
  split at h
  · next hnone =>
    rw [Schema.recordParts, hnone]
    exact Option.some.inj h ▸ putTogether_plain rfl
  · next htrue =>
    rw [Schema.recordParts, htrue]
    exact Option.some.inj h ▸ putTogether_plain rfl
  · next hfalse =>
    rw [Schema.recordParts, hfalse]
    exact Option.some.inj h ▸ putTogether_plain rfl
  · next node htrue hfalse hnode =>
    rw [Schema.recordParts, hnode]
    cases node with
    | bool admits => cases admits <;> contradiction
    | object values =>
      obtain ⟨inner, hinner, h⟩ := Option.bind_eq_some_iff.mp h
      exact Option.some.inj h ▸ (putTogether_position hinner).map fun _ => rfl

theorem ofArray_putTogether (h : ofArray render schema = some result) :
    PutTogether render registry schema.arrayParts result := by
  unfold ofArray at h
  dsimp only at h
  split at h
  · next hnone =>
    rw [Schema.arrayParts, hnone]
    exact Option.some.inj h ▸ putTogether_plain rfl
  · next hfalse =>
    rw [Schema.arrayParts, hfalse]
    exact Option.some.inj h ▸ putTogether_plain rfl
  · next node hfalse hnode =>
    obtain ⟨item, hitem, hresult⟩ := Option.bind_eq_some_iff.mp h
    rw [Schema.arrayParts, hnode]
    cases node with
    | bool admits =>
      cases admits with
      | false => contradiction
      | true => exact Option.some.inj hresult ▸ (putTogether_position hitem).map fun _ => rfl
    | object item => exact Option.some.inj hresult ▸ (putTogether_position hitem).map fun _ => rfl
  · next items hitems =>
    obtain ⟨item, hitem, h⟩ := Option.bind_eq_some_iff.mp h
    rw [Schema.arrayParts, hitems]
    exact Option.some.inj h ▸ (ofUnion_putTogether hitem).map fun _ => rfl

theorem ofType_putTogether {type : String} (h : ofType render schema type = some result) :
    PutTogether render registry (schema.typeParts type) result := by
  unfold ofType at h
  unfold Schema.typeParts
  split at h
  · exact Option.some.inj h ▸ putTogether_plain rfl
  · exact Option.some.inj h ▸ putTogether_plain rfl
  · exact Option.some.inj h ▸ putTogether_plain rfl
  · exact Option.some.inj h ▸ putTogether_plain rfl
  · exact Option.some.inj h ▸ putTogether_plain rfl
  · exact ofRecord_putTogether h
  · exact ofArray_putTogether h
  · split
    · contradiction
    · contradiction
    · exact Option.some.inj h ▸ putTogether_plain rfl

/-- Fragments that are put together apart are put together from all their positions. -/
theorem exists_answers {α : Type} {outlineOf : α → Bool × List Part} {items : List α}
    {answers : List (Option Fragment)}
    (h : List.Forall₂ (fun item answer => PutTogether render registry (outlineOf item) answer)
      items answers) :
    ∃ all, List.Forall₂ (fun part answer => render part.1 part.2 = some answer)
        (items.flatMap fun item => (outlineOf item).2) all ∧
      ((∃ fragment, some fragment ∈ answers) ↔
        (items.any fun item => (outlineOf item).1) = true ∨ ∃ fragment, some fragment ∈ all) ∧
      ∀ fragment name, some fragment ∈ answers → name ∈ fragment.names →
        registry.has name = true ∨ ∃ answer, some answer ∈ all ∧ name ∈ answer.names := by
  induction h with
  | nil => exact ⟨[], .nil, by simp, fun _ _ h => by cases h⟩
  | @cons item answer items answers hitem _ ih =>
    obtain ⟨own, hown, hsome, hnames⟩ := hitem
    obtain ⟨all, hall, hsomes, hnamess⟩ := ih
    -- The answers below the first item come before those below the others.
    refine ⟨own ++ all, ?_, ?_, ?_⟩
    · rw [List.flatMap_cons]
      exact List.rel_append hown hall
    · have hfirst : (∃ fragment, some fragment ∈ answer :: answers) ↔
          answer.isSome = true ∨ ∃ fragment, some fragment ∈ answers := by
        rw [Option.isSome_iff_exists]
        simp only [List.mem_cons, exists_or, eq_comm]
      rw [hfirst, hsome, hsomes, List.any_cons, Bool.or_eq_true]
      simp only [List.mem_append, exists_or]
      exact or_or_or_comm
    · intro fragment name hfragment hname
      simp only [List.mem_append]
      rcases List.mem_cons.mp hfragment with hfragment | hfragment
      · rcases hnames fragment name hfragment.symm hname with h | ⟨inner, hinner, h⟩
        · exact Or.inl h
        · exact Or.inr ⟨inner, Or.inl hinner, h⟩
      · rcases hnamess fragment name hfragment hname with h | ⟨inner, hinner, h⟩
        · exact Or.inl h
        · exact Or.inr ⟨inner, Or.inr hinner, h⟩

/-- A union of fragments that are put together apart is put together from all their positions. -/
theorem unionOf_putTogether {α : Type} {outlineOf : α → Bool × List Part} {items : List α}
    {answers : List (Option Fragment)}
    (h : List.Forall₂ (fun item answer => PutTogether render registry (outlineOf item) answer)
      items answers) :
    PutTogether render registry
      (items.any fun item => (outlineOf item).1, items.flatMap fun item => (outlineOf item).2)
      (unionOf answers) := by
  obtain ⟨all, hall, hsome, hnames⟩ := exists_answers h
  refine ⟨all, hall, ?_, ?_⟩
  · rw [unionOf_isSome]
    exact hsome
  · intro fragment mentioned hfragment hmentioned
    obtain ⟨answer, hanswer, hmentioned⟩ := names_unionOf hfragment hmentioned
    exact hnames answer mentioned hanswer hmentioned

/-- What is known of a property besides its fragment: keywords beside a reference come before those
    of its target. -/
def factsAt (registry : Registry) (document : Json) (isRequired : Bool)
    (property : String × SchemaNode) : PropertyFacts :=
  let own := property.2.toSchema?
  let full := annotated? registry document own
  let default := (own.bind (·.default)).or (full.bind (·.default))
  { key := property.1
    description := (own.bind (·.summary?)).or (full.bind (·.summary?))
    isOptional := !isRequired
    isNullable := (full.bind Schema.withoutNull?).isSome || default.any Json.isNull
      || own.any (·.nullable == some true) || full.any (·.nullable == some true)
    default := default }

/-- A property is rendered from its own position. -/
theorem ofProperty_eq_map {document : Json} (property : String × SchemaNode)
    {name : Option String} {isRequired : Bool} :
    ofProperty render registry document property.1 property.2
        (name.map (· ++ Text.identifier property.1)) isRequired =
      (render (Schema.propertyPart registry document name property).1
        (Schema.propertyPart registry document name property).2).map
          (Option.map fun fragment => (factsAt registry document isRequired property, fragment)) := by
  unfold ofProperty Schema.propertyPart factsAt
  dsimp only
  cases (annotated? registry document property.2.toSchema?).bind Schema.withoutNull? with
  | some other =>
    dsimp only
    cases render other _ <;> rfl
  | none =>
    dsimp only
    cases render property.2 _ <;> rfl

/-- What a property answers comes from its own position. -/
theorem ofProperty_eq {document : Json} {key : String} {node : SchemaNode} {name : Option String}
    {isRequired : Bool} {answer : Option (PropertyFacts × Fragment)}
    (h : ofProperty render registry document key node (name.map (· ++ Text.identifier key))
      isRequired = some answer) :
    ∃ inner facts, render (Schema.propertyPart registry document name (key, node)).1
        (Schema.propertyPart registry document name (key, node)).2 = some inner ∧
      answer = inner.map fun fragment => (facts, fragment) := by
  have hmap := ofProperty_eq_map (key, node) ▸ h
  obtain ⟨inner, hinner, rfl⟩ := Option.map_eq_some_iff.mp hmap
  exact ⟨inner, _, hinner, rfl⟩

theorem ofObject_putTogether {document : Json} {properties : Keyed SchemaNode}
    {name : Option String} {position : Position}
    (h : ofObject render registry document schema properties name position = some result) :
    PutTogether render registry
      (properties.isEmpty, properties.map (Schema.propertyPart registry document name)) result := by
  unfold ofObject at h
  obtain ⟨rendered, hrendered, h⟩ := Option.bind_eq_some_iff.mp h
  obtain rfl := Option.some.inj h
  -- Properties without a fragment are left out of the object.
  have hmembers : ∀ member, member ∈ rendered.filterMap id ↔ some member ∈ rendered :=
    fun member => mem_filterMap_id
  refine ⟨rendered.map (Option.map (·.2)), ?_, ?_, ?_⟩
  · rw [List.forall₂_map_left_iff, List.forall₂_map_right_iff]
    refine (mapM_eq_some_iff.mp hrendered).imp fun property answer hanswer => ?_
    obtain ⟨inner, facts, hinner, rfl⟩ := ofProperty_eq hanswer
    rw [hinner, Option.map_map]
    cases inner <;> rfl
  · have hexists : (∃ fragment, some fragment ∈ rendered.map (Option.map (·.2))) ↔
        (rendered.filterMap id).isEmpty = false := by
      rw [List.isEmpty_eq_false_iff_exists_mem]
      simp only [hmembers, List.mem_map, Option.map_eq_some_iff]
      constructor
      · rintro ⟨fragment, _, hmem, member, rfl, rfl⟩
        exact ⟨member, hmem⟩
      · rintro ⟨member, hmem⟩
        exact ⟨member.2, some member, hmem, member, rfl, rfl⟩
    rw [hexists]
    cases (rendered.filterMap id).isEmpty <;> cases properties.isEmpty <;> simp
  · intro fragment mentioned hfragment hmentioned
    split at hfragment
    · cases hfragment
    · cases hfragment
      rw [names, mem_namesOfProperties] at hmentioned
      obtain ⟨member, hmember, hmentioned⟩ := hmentioned
      refine Or.inr ⟨member.2, ?_, hmentioned⟩
      exact List.mem_map.mpr ⟨some member, (hmembers member).mp hmember, rfl⟩

end

/-! ## The outline of a schema -/

/-- What a rendered fragment owes to the outline of its schema. -/
theorem ofSchema_outline {registry : Registry} {document : Json} {fuel : Nat} {schema : Schema}
    {name : Option String} {position : Position} {result : Option Fragment}
    (h : ofSchema registry document (fuel + 1) schema name position = some result) :
    match schema.outline registry document name position with
    | .parts sure parts =>
      PutTogether (fun node name => ofNode registry document fuel node name .nested) registry
        (sure, parts) result
    | .reference reference => result = ofReference registry reference
    | .composition child => ∃ merged, schema.resolveAllOf? document fuel = some merged ∧
        ofSchema registry document fuel merged child position = some result := by
  rw [ofSchema] at h
  dsimp only at h
  unfold Schema.outline
  cases hproperties : schema.properties with
  | some properties =>
    rw [hproperties] at h
    exact ofObject_putTogether h
  | none =>
    rw [hproperties] at h
    dsimp only at h ⊢
    -- From here on the cases come in the sequence of the dispatch, each where those before fail.
    by_cases hnull : (schema.typeName? == some "null") = true
    · rw [if_pos hnull] at h ⊢
      exact Option.some.inj h ▸ putTogether_plain rfl
    rw [if_neg hnull] at h ⊢
    by_cases hobject : (schema.typeName? == some "object") = true
    · rw [if_pos hobject] at h ⊢
      exact ofRecord_putTogether h
    rw [if_neg hobject] at h ⊢
    cases hconst : schema.const with
    | some value =>
      rw [hconst] at h
      exact Option.some.inj h ▸ putTogether_plain rfl
    | none =>
    cases henum : schema.enum with
    | some values =>
      rw [hconst, henum] at h
      exact Option.some.inj h ▸ ofEnum_putTogether
    | none =>
    cases href : schema.ref with
    | some reference =>
      rw [hconst, henum, href] at h
      exact (Option.some.inj h).symm
    | none =>
    cases hallOf : schema.allOf with
    | some members =>
      rw [hconst, henum, href, hallOf] at h
      cases members with
      | nil => exact Option.some.inj h ▸ putTogether_absent
      | cons member rest =>
        dsimp only at h ⊢
        split at h
        · next child hchild =>
          have hchild : Schema.declaredChild? registry name position = some child := hchild
          rw [hchild, Option.isSome_some, if_pos rfl]
          refine Option.some.inj h ▸ putTogether_named ?_
          unfold Schema.declaredChild? at hchild
          split at hchild
          · exact (Option.filter_eq_some_iff.mp hchild).2
          · cases hchild
        · next hchild =>
          have hchild : Schema.declaredChild? registry name position = none := hchild
          rw [hchild]
          obtain ⟨merged, hmerged, h⟩ := Option.bind_eq_some_iff.mp h
          exact ⟨merged, hmerged, h⟩
    | none =>
    rw [hconst, henum, href, hallOf] at h
    dsimp only at h ⊢
    unfold Schema.bareOutline
    cases hmembers : schema.unionMembers? with
    | some members =>
      rw [hmembers] at h
      exact ofUnion_putTogether h
    | none =>
    rw [hmembers] at h
    cases htype : schema.type with
    | none =>
      rw [htype] at h
      exact Option.some.inj h ▸ putTogether_plain rfl
    | some type =>
      rw [htype] at h
      cases type with
      | single type => exact ofType_putTogether h
      | several types =>
        cases types with
        | nil => exact Option.some.inj h ▸ putTogether_plain rfl
        | cons type types =>
          obtain ⟨answers, hanswers, h⟩ := Option.bind_eq_some_iff.mp h
          refine Option.some.inj h ▸ unionOf_putTogether ?_
          exact (mapM_eq_some_iff.mp hanswers).imp fun _ _ hanswer => ofType_putTogether hanswer

end Fragment
end TypedClient
