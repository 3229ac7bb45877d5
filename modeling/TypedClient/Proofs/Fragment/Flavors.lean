/-
  TypedClient.Proofs.Fragment.Flavors

  The two flavors declare the same things.

  A flavor can be written straight away, without fragments: every schema becomes text in the words
  of the flavor, and a union compares the texts of its members and keeps each text once.  Two
  flavors then follow different texts, since members that differ in one of them may be equal in the
  other.  Writing in this way gives what spelling the fragment gives, so that whether there is a
  text at all depends on the schema only, and not on the words.
-/
import TypedClient.Proofs.Fragment.Absence

namespace TypedClient

/-! ## Writing a schema in the words of a flavor -/

namespace SourceText

/-- How the text of a nested position with a name, if any, is found. -/
abbrev Writer := SchemaNode → Option String → Option (Option String)

section

variable (spelling : Spelling) (write : Writer)

/-- A union of the texts there are: equal ones count once, and a single one needs no union. -/
def joinUnion (texts : List (Option String)) : Option String :=
  match firstOccurrences (texts.filterMap id) with
  | [] => none
  | [text] => some text
  | several => some (spelling.union several)

/-- Text of a union of schemas. -/
def ofUnion (members : List SchemaNode) (name : Option String) : Option (Option String) := do
  let texts ← (Schema.literalBranches members).mapM (write · (name.map Text.enumChildName))
  some (joinUnion spelling texts)

/-- Text of a map. -/
def ofRecord (schema : Schema) : Option (Option String) :=
  match schema.additionalProperties with
  | none => some (some (spelling.record none))
  | some (.bool true) => some (some (spelling.record none))
  | some (.bool false) => some (some (spelling.record (some spelling.never)))
  | some node => do
    let values ← write node none
    some (values.map fun values => spelling.record (some values))

/-- Text of an array. -/
def ofArray (schema : Schema) : Option (Option String) := do
  let item ← match schema.items with
    | none => some (some spelling.unknown)
    | some (.single (.bool false)) => some (some spelling.never)
    | some (.single item) => write item none
    | some (.tuple items) => ofUnion spelling write items none
  let nonEmpty := schema.minItems.any (1 ≤ ·)
  some (item.map fun item => spelling.array item nonEmpty schema.maxItems)

/-- Text of a schema of one type. -/
def ofType (schema : Schema) (name : String) : Option (Option String) :=
  match name with
  | "string" => some (some (spelling.string schema.stringFacets))
  | "integer" => some (some (spelling.number (schema.numberFacets true)))
  | "number" => some (some (spelling.number (schema.numberFacets false)))
  | "boolean" => some (some spelling.boolean)
  | "null" => some (some spelling.null)
  | "object" => ofRecord spelling write schema
  | "array" => ofArray spelling write schema
  | _ => some (some spelling.unknown)

/-- Text of a reference: its declaration is mentioned, if there is one. -/
def ofReference (registry : Registry) (reference : String) : Option String :=
  let name := Reference.name reference
  if Reference.isInternal reference && registry.has name then some (spelling.named name) else none

/-- The line of a property with a text, in an object that requires some of its properties. -/
def line (registry : Registry) (document : Json) (required : List String)
    (property : String × SchemaNode) (text : String) : String :=
  spelling.property
    (Fragment.factsAt registry document (required.contains property.1) property) text

/-- The line of a property of an object, in the position that its text comes from. -/
def ofProperty (registry : Registry) (document : Json) (name : Option String)
    (required : List String) (property : String × SchemaNode) : Option (Option String) := do
  let part := Schema.propertyPart registry document name property
  let text ← write part.1 part.2
  some (text.map (line spelling registry document required property))

/-- Text of an object with properties, from the lines that there are. -/
def ofObject (registry : Registry) (document : Json) (schema : Schema)
    (properties : Keyed SchemaNode) (name : Option String) (position : Position) :
    Option (Option String) := do
  let written ← properties.mapM
    (ofProperty spelling write registry document name (schema.required.getD []))
  let lines := written.filterMap id
  some (if lines.isEmpty && !properties.isEmpty then none
    else some (spelling.object lines (position == .topLevelClass)))

/-- Text of an enumeration at a position. -/
def ofEnum (registry : Registry) (values : List Json) (name : Option String)
    (position : Position) : String :=
  match if position == .nested then name.filter registry.isEnum else none with
  | some name => spelling.named name
  | none =>
    if values.isEmpty then spelling.never else spelling.literals (values.map Json.render)

end

mutual
/-- Text of a node. -/
def ofNode (spelling : Spelling) (registry : Registry) (document : Json) :
    Nat → SchemaNode → Option String → Position → Option (Option String)
  | 0, _, _, _ => none
  | _ + 1, .bool true, _, _ => some (some spelling.unknown)
  | _ + 1, .bool false, _, _ => some none
  | fuel + 1, .object schema, name, position =>
    ofSchema spelling registry document fuel schema.cleanup name position

/-- Text of a cleaned schema. -/
def ofSchema (spelling : Spelling) (registry : Registry) (document : Json) :
    Nat → Schema → Option String → Position → Option (Option String)
  | 0, _, _, _ => none
  | fuel + 1, schema, name, position =>
    let write : Writer := fun node name =>
      ofNode spelling registry document fuel node name .nested
    match schema.properties with
    | some properties =>
      ofObject spelling write registry document schema properties name position
    | none =>
      if schema.typeName? == some "null" then some (some spelling.null)
      else if schema.typeName? == some "object" then ofRecord spelling write schema
      else match schema.const, schema.enum, schema.ref, schema.allOf with
      | some value, _, _, _ => some (some (spelling.literals [value.render]))
      | none, some values, _, _ => some (some (ofEnum spelling registry values name position))
      | none, none, some reference, _ => some (ofReference spelling registry reference)
      | none, none, none, some [] => some none
      | none, none, none, some (_ :: _) =>
        let child := name.map Text.enumChildName
        match if position == .nested then child.filter registry.has else none with
        | some child => some (some (spelling.named child))
        | none => do
          let merged ← schema.resolveAllOf? document fuel
          ofSchema spelling registry document fuel merged child position
      | none, none, none, none =>
        match schema.unionMembers?, schema.type with
        | some members, _ => ofUnion spelling write members name
        | none, some (.single type) => ofType spelling write schema type
        | none, some (.several (type :: types)) => do
          some (joinUnion spelling (← (type :: types).mapM (ofType spelling write schema)))
        | none, _ => some (some spelling.unknown)
end

/-! ## Writing is spelling -/

/-- What a rendered position is spelled as. -/
def spelled (spelling : Spelling) (answer : Option (Option Fragment)) : Option (Option String) :=
  answer.map (Option.map (·.spell spelling))

variable {spelling : Spelling} {render : Fragment.Renderer} {write : Writer}

theorem firstOccurrences_ne_nil {texts : List String} (h : texts ≠ []) :
    firstOccurrences texts ≠ [] := by
  -- Once there is a text it stays.
  have hstays : ∀ (texts seen : List String), seen ≠ [] →
      texts.foldl (fun seen text => if seen.contains text then seen else seen ++ [text]) seen
        ≠ [] := by
    intro texts
    induction texts with
    | nil => exact fun _ hseen => hseen
    | cons text rest ih =>
      intro seen hseen
      rw [List.foldl_cons]
      apply ih
      split
      · exact hseen
      · simp
  cases texts with
  | nil => contradiction
  | cons text rest => exact hstays rest _ (by simp)

theorem spellMembers_eq_map (spelling : Spelling) (members : List Fragment) :
    Fragment.spellMembers spelling members = members.map (·.spell spelling) := by
  induction members with
  | nil => rfl
  | cons member rest ih => rw [Fragment.spellMembers, ih, List.map_cons]

theorem spellProperties_eq_map (spelling : Spelling)
    (properties : List (PropertyFacts × Fragment)) :
    Fragment.spellProperties spelling properties =
      properties.map fun property =>
        spelling.property property.1 (property.2.spell spelling) := by
  induction properties with
  | nil => rfl
  | cons property rest ih => rw [Fragment.spellProperties, ih, List.map_cons]

/-- The texts of a union are joined as its fragments are. -/
theorem joinUnion_spelled (fragments : List (Option Fragment)) :
    joinUnion spelling (fragments.map (Option.map (·.spell spelling))) =
      (Fragment.unionOf fragments).map (·.spell spelling) := by
  have htexts : (fragments.map (Option.map (·.spell spelling))).filterMap id =
      (fragments.filterMap id).map (·.spell spelling) := by
    rw [List.filterMap_map, List.map_filterMap]
    rfl
  unfold joinUnion Fragment.unionOf
  rw [htexts]
  cases fragments.filterMap id with
  | nil => rfl
  | cons first rest =>
    have hne : firstOccurrences ((first :: rest).map (·.spell spelling)) ≠ [] :=
      firstOccurrences_ne_nil (by simp)
    dsimp only
    rw [Option.map_some, Fragment.spell, spellMembers_eq_map, Spelling.joinUnion]
    split
    · contradiction
    · next text htext => rw [htext]
    · next several hnone hone =>
      split
      · next text htext => exact absurd htext (hone text)
      · rfl

/-- A text around the text of a position is spelled from the fragment around its fragment. -/
theorem bind_spelled (answer : Option (Option Fragment))
    {wrapText : String → String} {wrapFragment : Fragment → Fragment}
    (hwrap : ∀ fragment, (wrapFragment fragment).spell spelling =
      wrapText (fragment.spell spelling)) :
    ((spelled spelling answer).bind fun text => some (text.map wrapText)) =
      spelled spelling (answer.bind fun fragment => some (fragment.map wrapFragment)) := by
  cases answer with
  | none => rfl
  | some fragment =>
    cases fragment with
    | none => rfl
    | some fragment => exact congrArg (some ∘ some) (hwrap fragment).symm

/-- A union of positions is joined from their texts as it is from their fragments. -/
theorem joinUnion_mapM {α : Type} {textOf : α → Option (Option String)}
    {fragmentOf : α → Option (Option Fragment)} (items : List α)
    (h : ∀ item, textOf item = spelled spelling (fragmentOf item)) :
    ((items.mapM textOf).bind fun texts => some (joinUnion spelling texts)) =
      spelled spelling
        ((items.mapM fragmentOf).bind fun fragments => some (Fragment.unionOf fragments)) := by
  have htexts : items.mapM textOf =
      (items.mapM fragmentOf).map (List.map (Option.map (·.spell spelling))) := by
    rw [mapM_congr fun item _ => h item]
    exact mapM_map_answers fragmentOf _ items
  rw [htexts]
  cases items.mapM fragmentOf with
  | none => rfl
  | some fragments => exact congrArg some (joinUnion_spelled fragments)

/-! The helpers of the dispatch, one by one: their texts are spelled from their fragments when the
texts of the positions are. -/

section

variable (hwrite : ∀ node name, write node name = spelled spelling (render node name))
  {schema : Schema}

include hwrite

theorem ofUnion_spelled (members : List SchemaNode) (name : Option String) :
    ofUnion spelling write members name =
      spelled spelling (Fragment.ofUnion render members name) :=
  joinUnion_mapM _ fun member => hwrite member (name.map Text.enumChildName)

theorem ofRecord_spelled :
    ofRecord spelling write schema = spelled spelling (Fragment.ofRecord render schema) := by
  unfold ofRecord Fragment.ofRecord
  cases schema.additionalProperties with
  | none => rfl
  | some node =>
    cases node with
    | bool admits => cases admits <;> rfl
    | object values =>
      dsimp only
      rw [hwrite]
      exact bind_spelled _ fun _ => rfl

theorem ofArray_spelled :
    ofArray spelling write schema = spelled spelling (Fragment.ofArray render schema) := by
  unfold ofArray Fragment.ofArray
  cases schema.items with
  | none => rfl
  | some items =>
    cases items with
    | single item =>
      cases item with
      | bool admits =>
        cases admits with
        | false => rfl
        | true =>
          dsimp only
          rw [hwrite]
          exact bind_spelled _ fun _ => rfl
      | object item =>
        dsimp only
        rw [hwrite]
        exact bind_spelled _ fun _ => rfl
    | tuple items =>
      dsimp only
      rw [ofUnion_spelled hwrite]
      exact bind_spelled _ fun _ => rfl

theorem ofType_spelled (type : String) :
    ofType spelling write schema type = spelled spelling (Fragment.ofType render schema type) := by
  unfold ofType
  split
  · rfl
  · rfl
  · rfl
  · rfl
  · rfl
  · exact ofRecord_spelled hwrite
  · exact ofArray_spelled hwrite
  · next h1 h2 h3 h4 h5 h6 h7 =>
    have hunknown : Fragment.ofType render schema type = some (some .unknown) := by
      unfold Fragment.ofType
      split <;> first | contradiction | rfl
    rw [hunknown]
    rfl

theorem ofProperty_spelled (registry : Registry) (document : Json) (name : Option String)
    (required : List String) (property : String × SchemaNode) :
    ofProperty spelling write registry document name required property =
      (Fragment.ofProperty render registry document property.1 property.2
        (name.map (· ++ Text.identifier property.1)) (required.contains property.1)).map
          (Option.map fun member => spelling.property member.1 (member.2.spell spelling)) := by
  unfold ofProperty
  dsimp only
  rw [Fragment.ofProperty_eq_map, hwrite]
  cases render _ _ with
  | none => rfl
  | some fragment => cases fragment <;> rfl

theorem ofObject_spelled (registry : Registry) (document : Json) (properties : Keyed SchemaNode)
    (name : Option String) (position : Position) :
    ofObject spelling write registry document schema properties name position =
      spelled spelling
        (Fragment.ofObject render registry document schema properties name position) := by
  unfold ofObject Fragment.ofObject
  rw [mapM_congr fun property _ => ofProperty_spelled hwrite registry document name _ property,
    mapM_map_answers]
  dsimp only
  cases properties.mapM fun property => Fragment.ofProperty render registry document property.1
      property.2 (name.map (· ++ Text.identifier property.1))
      ((schema.required.getD []).contains property.1) with
  | none => rfl
  | some rendered =>
    have hlines : (rendered.map (Option.map fun member =>
        spelling.property member.1 (member.2.spell spelling))).filterMap id =
          Fragment.spellProperties spelling (rendered.filterMap id) := by
      rw [spellProperties_eq_map, List.filterMap_map, List.map_filterMap]
      rfl
    have hempty : (Fragment.spellProperties spelling (rendered.filterMap id)).isEmpty =
        (rendered.filterMap id).isEmpty := by
      rw [spellProperties_eq_map, List.isEmpty_map]
    dsimp only [Option.map_some, Option.bind_eq_bind, Option.bind_some]
    rw [hlines, hempty]
    split <;> rfl

end

theorem ofReference_spelled (registry : Registry) (reference : String) :
    ofReference spelling registry reference =
      (Fragment.ofReference registry reference).map (·.spell spelling) := by
  unfold ofReference Fragment.ofReference
  dsimp only
  split <;> rfl

theorem ofEnum_spelled (registry : Registry) (values : List Json) (name : Option String)
    (position : Position) :
    ofEnum spelling registry values name position =
      (Fragment.ofEnum registry values name position).spell spelling := by
  unfold ofEnum Fragment.ofEnum
  cases (if position == .nested then name.filter registry.isEnum else none) with
  | some name => rfl
  | none =>
    dsimp only
    split <;> rfl

/-- Writing a node or a schema gives what its fragment is spelled as. -/
theorem written_eq_spelled (spelling : Spelling) (registry : Registry) (document : Json)
    (fuel : Nat) :
    (∀ node name position, ofNode spelling registry document fuel node name position =
      spelled spelling (Fragment.ofNode registry document fuel node name position)) ∧
    (∀ schema name position, ofSchema spelling registry document fuel schema name position =
      spelled spelling (Fragment.ofSchema registry document fuel schema name position)) := by
  induction fuel with
  | zero =>
    refine ⟨fun node name position => ?_, fun schema name position => ?_⟩
    · rw [ofNode, Fragment.ofNode]
      rfl
    · rw [ofSchema, Fragment.ofSchema]
      rfl
  | succ fuel ih =>
    obtain ⟨ihNode, ihSchema⟩ := ih
    refine ⟨fun node name position => ?_, fun schema name position => ?_⟩
    · cases node with
      | bool admits =>
        cases admits with
        | true =>
          rw [ofNode, Fragment.ofNode]
          rfl
        | false =>
          rw [ofNode, Fragment.ofNode]
          rfl
      | object schema =>
        rw [ofNode, Fragment.ofNode]
        exact ihSchema schema.cleanup name position
    · have hwrite : ∀ node name, ofNode spelling registry document fuel node name .nested =
          spelled spelling (Fragment.ofNode registry document fuel node name .nested) :=
        fun node name => ihNode node name .nested
      rw [ofSchema, Fragment.ofSchema]
      dsimp only
      -- The cases come in the sequence of the dispatch.
      cases schema.properties with
      | some properties => exact ofObject_spelled hwrite registry document properties name position
      | none =>
      dsimp only
      by_cases hnull : (schema.typeName? == some "null") = true
      · rw [if_pos hnull, if_pos hnull]
        rfl
      rw [if_neg hnull, if_neg hnull]
      by_cases hobject : (schema.typeName? == some "object") = true
      · rw [if_pos hobject, if_pos hobject]
        exact ofRecord_spelled hwrite
      rw [if_neg hobject, if_neg hobject]
      cases schema.const with
      | some value => rfl
      | none =>
      cases schema.enum with
      | some values =>
        exact congrArg (some ∘ some) (ofEnum_spelled registry values name position)
      | none =>
      cases schema.ref with
      | some reference => exact congrArg some (ofReference_spelled registry reference)
      | none =>
      cases schema.allOf with
      | some members =>
        cases members with
        | nil => rfl
        | cons member rest =>
          dsimp only
          cases (if position == .nested then (name.map Text.enumChildName).filter registry.has
              else none) with
          | some child => rfl
          | none =>
            dsimp only
            cases schema.resolveAllOf? document fuel with
            | none => rfl
            | some merged => exact ihSchema merged (name.map Text.enumChildName) position
      | none =>
      dsimp only
      cases schema.unionMembers? with
      | some members => exact ofUnion_spelled hwrite members name
      | none =>
      cases schema.type with
      | none => rfl
      | some type =>
        cases type with
        | single type => exact ofType_spelled hwrite type
        | several types =>
          cases types with
          | nil => rfl
          | cons type types => exact joinUnion_mapM _ fun type => ofType_spelled hwrite type

/-- The declaration of an entry with its text. -/
def declarationOf (entry : String × Entry) (source : String) : Declaration where
  name := entry.1
  source := source
  description := entry.2.schema.object?.bind (·.summary?)
  isClass := entry.2.isClass
  isEnum := entry.2.isEnum
  isObject := Registry.isObject entry.2

/-- Text of an entry. -/
def ofEntry (spelling : Spelling) (registry : Registry) (document : Json) (fuel : Nat)
    (entry : String × Entry) : Option (Option String) :=
  ofNode spelling registry document fuel entry.2.schema (some entry.1)
    (Point.ofEntry entry).position

/-- An entry is declared with its text. -/
theorem declare?_eq (spelling : Spelling) (registry : Registry) (document : Json) (fuel : Nat)
    (entry : String × Entry) :
    registry.declare? document fuel spelling entry =
      (ofEntry spelling registry document fuel entry).map
        (Option.map fun source => spelling.declaration (declarationOf entry source)) := by
  have hwritten : ofEntry spelling registry document fuel entry =
      spelled spelling (registry.fragmentOf document fuel entry) :=
    (written_eq_spelled spelling registry document fuel).1 _ _ _
  rw [hwritten, Registry.declare?]
  cases registry.fragmentOf document fuel entry with
  | none => rfl
  | some fragment => cases fragment <;> rfl

end SourceText

/-! ## What the flavors have in common -/

variable {registry : Registry} {document : Json}

/-- Where writing is done, a text is missing just where the schema vanishes. -/
theorem written_eq_none_iff {spelling : Spelling} {fuel : Nat} {node : SchemaNode}
    {name : Option String} {position : Position} {text : Option String}
    (h : SourceText.ofNode spelling registry document fuel node name position = some text) :
    text = none ↔ Vanishes registry document ⟨node, name, position⟩ := by
  rw [(SourceText.written_eq_spelled spelling registry document fuel).1] at h
  obtain ⟨fragment, hfragment, rfl⟩ := Option.map_eq_some_iff.mp h
  have hanswers := (Fragment.ofNode_answers registry document fuel).1 _ _ _ _ hfragment
  rw [Option.map_eq_none_iff]
  exact hanswers.absent

open Classical in
/-- Of a list of answers, those that are there belong to the items that do not vanish. -/
theorem forall₂_filter_of_answers {α β : Type} {R : α → Option β → Prop} {gone : α → Prop}
    (hgone : ∀ item answer, R item answer → (answer = none ↔ gone item)) {items : List α}
    {answers : List (Option β)} (h : List.Forall₂ R items answers) :
    List.Forall₂ (fun item b => R item (some b)) (items.filter (¬ gone ·))
      (answers.filterMap id) := by
  induction h with
  | nil => exact .nil
  | @cons item answer items answers hitem _ ih =>
    have habsent := hgone item answer hitem
    cases answer with
    | none =>
      rw [List.filter_cons_of_neg (by simpa using habsent.mp rfl)]
      exact ih
    | some b =>
      have hthere : ¬ gone item := fun h => Option.some_ne_none b (habsent.mpr h)
      rw [List.filter_cons_of_pos (by simpa using hthere)]
      exact .cons hitem ih

/-- The entries that are declared are the same in every flavor: those that do not vanish. -/
theorem exists_declared (registry : Registry) (document : Json) :
    ∃ declared : List (String × Entry), declared.Sublist registry.entries ∧
      (∀ entry ∈ registry.entries, entry ∈ declared ↔
        ¬ Vanishes registry document (Point.ofEntry entry)) ∧
      ∀ spelling fuel texts, registry.declareAll document fuel spelling = some texts →
        List.Forall₂ (fun entry text => ∃ source,
          SourceText.ofEntry spelling registry document fuel entry = some (some source) ∧
            text = spelling.declaration (SourceText.declarationOf entry source))
          declared texts := by
  classical
  refine ⟨registry.entries.filter fun entry => ¬ Vanishes registry document (Point.ofEntry entry),
    List.filter_sublist, fun entry hentry => ?_, fun spelling fuel texts h => ?_⟩
  · rw [List.mem_filter]
    simp [hentry]
  · obtain ⟨answers, hanswers, h⟩ := Option.bind_eq_some_iff.mp h
    obtain rfl := Option.some.inj h
    have hentries := mapM_eq_some_iff.mp hanswers
    refine (forall₂_filter_of_answers ?_ hentries).imp fun entry text hentry => ?_
    · intro entry answer hentry
      rw [SourceText.declare?_eq] at hentry
      obtain ⟨text, htext, rfl⟩ := Option.map_eq_some_iff.mp hentry
      rw [Option.map_eq_none_iff]
      exact written_eq_none_iff htext
    · rw [SourceText.declare?_eq] at hentry
      obtain ⟨source, hsource, hentry⟩ := Option.map_eq_some_iff.mp hentry
      obtain ⟨source, rfl, rfl⟩ := Option.map_eq_some_iff.mp hentry
      exact ⟨source, hsource, rfl⟩

/-- Lines that are made one by one, from the texts of what they are about. -/
theorem exists_sources {α : Type} (line : α → String → String) (R : α → String → Prop)
    {kept : List α} {lines : List String}
    (h : List.Forall₂ (fun item made => ∃ source, R item source ∧ made = line item source)
      kept lines) :
    ∃ sources, List.Forall₂ R kept sources ∧ lines = List.zipWith line kept sources := by
  induction h with
  | nil => exact ⟨[], .nil, rfl⟩
  | cons hitem _ ih =>
    obtain ⟨source, hsource, rfl⟩ := hitem
    obtain ⟨sources, hsources, rfl⟩ := ih
    exact ⟨source :: sources, .cons hsource hsources, rfl⟩

/-- The point that a property is rendered from. -/
def Point.ofProperty (registry : Registry) (document : Json) (name : Option String)
    (property : String × SchemaNode) : Point where
  node := (Schema.propertyPart registry document name property).1
  name := (Schema.propertyPart registry document name property).2
  position := .nested

/-- Text of a property, without what is known of it besides. -/
def SourceText.ofPropertyPoint (spelling : Spelling) (registry : Registry) (document : Json)
    (fuel : Nat) (name : Option String) (property : String × SchemaNode) :
    Option (Option String) :=
  let point := Point.ofProperty registry document name property
  ofNode spelling registry document fuel point.node point.name point.position

/-- The properties that an object keeps are the same in every flavor: those that do not vanish. -/
theorem exists_kept {schema : Schema} {properties : Keyed SchemaNode}
    (hproperties : schema.cleanup.properties = some properties) (name : Option String)
    (position : Position) :
    ∃ kept : Keyed SchemaNode, kept.Sublist properties ∧
      (∀ property ∈ properties, property ∈ kept ↔
        ¬ Vanishes registry document (Point.ofProperty registry document name property)) ∧
      ∀ spelling fuel text,
        SourceText.ofNode spelling registry document fuel (.object schema) name position =
          some (some text) →
        ∃ less sources, List.Forall₂ (fun property source =>
            SourceText.ofPropertyPoint spelling registry document less name property =
              some (some source)) kept sources ∧
          text = spelling.object (List.zipWith (SourceText.line spelling registry document
            (schema.cleanup.required.getD [])) kept sources) (position == .topLevelClass) := by
  classical
  refine ⟨properties.filter fun property =>
      ¬ Vanishes registry document (Point.ofProperty registry document name property),
    List.filter_sublist, fun property hproperty => ?_, fun spelling fuel text h => ?_⟩
  · rw [List.mem_filter]
    simp [hproperty]
  · -- The object is written with less fuel than the node, and its properties with less still.
    match fuel, h with
    | fuel + 2, h =>
      rw [SourceText.ofNode, SourceText.ofSchema, hproperties] at h
      obtain ⟨written, hwritten, h⟩ := Option.bind_eq_some_iff.mp h
      have hkept := forall₂_filter_of_answers (fun property answer hanswer => by
        obtain ⟨text, htext, hanswer⟩ := Option.bind_eq_some_iff.mp hanswer
        rw [← Option.some.inj hanswer, Option.map_eq_none_iff]
        exact written_eq_none_iff htext) (mapM_eq_some_iff.mp hwritten)
      obtain ⟨sources, hsources, hlines⟩ := exists_sources
        (SourceText.line spelling registry document (schema.cleanup.required.getD []))
        (fun property source => SourceText.ofPropertyPoint spelling registry document fuel name
          property = some (some source))
        (hkept.imp fun property made hmade => by
          obtain ⟨source, hsource, hmade⟩ := Option.bind_eq_some_iff.mp hmade
          obtain ⟨source, rfl, rfl⟩ := Option.map_eq_some_iff.mp (Option.some.inj hmade)
          exact ⟨source, hsource, rfl⟩)
      refine ⟨fuel, sources, hsources, ?_⟩
      have h := Option.some.inj h
      split at h
      · cases h
      · exact (Option.some.inj h).symm.trans (congrArg (spelling.object · _) hlines)

/-- The two flavors declare the same things. Text that is written in the words of a flavor, as a
    schema at a position is emitted, is there in one flavor if and only if it is there in the other;
    the entries that are declared are the same in the same order, and so are the properties that an
    object keeps: those that do not vanish. -/
theorem flavors_declare_alike (registry : Registry) (document : Json) :
    (∀ (flavor : Flavor) fuel node name topLevel,
      registry.sourceOf document fuel flavor.spelling node name topLevel =
        SourceText.ofNode flavor.spelling registry document fuel node name
          (if topLevel then .topLevel else .nested)) ∧
    (∀ (first second : Flavor) node name position,
      (∀ fuel,
        (SourceText.ofNode first.spelling registry document fuel node name position).isSome =
          (SourceText.ofNode second.spelling registry document fuel node name position).isSome) ∧
      ∀ fuel more text other,
        SourceText.ofNode first.spelling registry document fuel node name position = some text →
        SourceText.ofNode second.spelling registry document more node name position = some other →
        (text.isSome = true ↔ other.isSome = true)) ∧
    (∃ declared : List (String × Entry), declared.Sublist registry.entries ∧
      (∀ entry ∈ registry.entries, entry ∈ declared ↔
        ¬ Vanishes registry document (Point.ofEntry entry)) ∧
      ∀ (flavor : Flavor) fuel texts,
        registry.declareAll document fuel flavor.spelling = some texts →
        List.Forall₂ (fun entry text => ∃ source,
          SourceText.ofEntry flavor.spelling registry document fuel entry = some (some source) ∧
            text = flavor.spelling.declaration (SourceText.declarationOf entry source))
          declared texts) ∧
    ∀ (schema : Schema) properties name position, schema.cleanup.properties = some properties →
      ∃ kept : Keyed SchemaNode, kept.Sublist properties ∧
        (∀ property ∈ properties, property ∈ kept ↔
          ¬ Vanishes registry document (Point.ofProperty registry document name property)) ∧
        ∀ (flavor : Flavor) fuel text,
          SourceText.ofNode flavor.spelling registry document fuel (.object schema) name position =
            some (some text) →
          ∃ less sources, List.Forall₂ (fun property source =>
              SourceText.ofPropertyPoint flavor.spelling registry document less name property =
                some (some source)) kept sources ∧
            text = flavor.spelling.object (List.zipWith (SourceText.line flavor.spelling registry
              document (schema.cleanup.required.getD [])) kept sources)
                (position == .topLevelClass) := by
  refine ⟨?_, ?_, ?_, ?_⟩
  · intro flavor fuel node name topLevel
    rw [(SourceText.written_eq_spelled flavor.spelling registry document fuel).1]
    unfold Registry.sourceOf
    cases Fragment.ofNode registry document fuel node name
      (if topLevel then .topLevel else .nested) <;> rfl
  · intro first second node name position
    refine ⟨fun fuel => ?_, fun fuel more text other htext hother => ?_⟩
    · rw [(SourceText.written_eq_spelled first.spelling registry document fuel).1,
        (SourceText.written_eq_spelled second.spelling registry document fuel).1]
      unfold SourceText.spelled
      rw [Option.isSome_map, Option.isSome_map]
    · have habsent : text = none ↔ other = none :=
        (written_eq_none_iff htext).trans (written_eq_none_iff hother).symm
      rw [← Option.ne_none_iff_isSome, ← Option.ne_none_iff_isSome]
      exact not_congr habsent
  · obtain ⟨declared, hsublist, hmem, hdeclared⟩ := exists_declared registry document
    exact ⟨declared, hsublist, hmem, fun flavor => hdeclared flavor.spelling⟩
  · intro schema properties name position hproperties
    obtain ⟨kept, hsublist, hmem, hkept⟩ := exists_kept hproperties name position
    exact ⟨kept, hsublist, hmem, fun flavor => hkept flavor.spelling⟩

/-- An object with a union whose members are of the same type, one of them with a least length, and
    with a property that is behind a reference to another file. -/
def lengthsSchema : Schema where
  properties := some [
    ("code", .object { oneOf := some [
      .object { type := some (.single "string"), minLength := some 1 },
      .object { type := some (.single "string") }] }),
    ("owner", .object { ref := some "people.json#/Owner" })]

/-- A registry with the object. -/
def lengthsRegistry : Registry where
  entries := [("Lengths", ⟨.object lengthsSchema, true, false⟩)]

/-- Text of the object at the top of its class. -/
def lengthsText (flavor : Flavor) : Option (Option String) :=
  SourceText.ofNode flavor.spelling lengthsRegistry .null 6 (.object lengthsSchema) (some "Lengths")
    .topLevelClass

/-- The members of the union are equal in one flavor only. Still both flavors declare the object,
    with the one property that is no reference to another file. -/
theorem lengths_declared_alike :
    (∃ plain checked, lengthsText .types = some plain ∧ lengthsText .schema = some checked ∧
      plain ≠ checked ∧ (plain.isSome = true ↔ checked.isSome = true)) ∧
    (∃ declared : List (String × Entry), declared.Sublist lengthsRegistry.entries ∧
      declared.length = 1) ∧
    ∃ kept : Keyed SchemaNode, kept.Sublist (lengthsSchema.properties.getD []) ∧
      ∀ flavor : Flavor, ∃ sources : List String, sources.length = kept.length ∧
        lengthsText flavor = some (some (flavor.spelling.object (List.zipWith
          (SourceText.line flavor.spelling lengthsRegistry .null []) kept sources) true)) := by
  have hplain : lengthsText .types =
      some (some "\x7b\n  readonly \"code\"?: string | undefined\n\x7d") := by decide +kernel
  have hchecked : lengthsText .schema = some (some ("\x7b\n  \"code\": " ++
      "S.optionalWith(S.Union(S.String.pipe(S.minLength(1)), S.String), " ++
        "\x7b nullable: true \x7d)\n\x7d")) := by decide +kernel
  have hall : lengthsRegistry.declareAll .null 6 Flavor.types.spelling =
      some ["export interface Lengths \x7b\n  readonly \"code\"?: string | undefined\n\x7d"] := by
    decide +kernel
  have hclean : lengthsSchema.cleanup = lengthsSchema :=
    Schema.cleanup_of_normal (Schema.normal_of_plain rfl rfl rfl nofun)
  have hproperties :
      lengthsSchema.cleanup.properties = some (lengthsSchema.properties.getD []) := by
    rw [hclean]
    rfl
  obtain ⟨-, halike, ⟨declared, hsublist, -, hdeclared⟩, hobject⟩ :=
    flavors_declare_alike lengthsRegistry .null
  obtain ⟨kept, hkept, -, hflavors⟩ :=
    hobject lengthsSchema _ (some "Lengths") .topLevelClass hproperties
  refine ⟨⟨_, _, hplain, hchecked, by decide, ?_⟩, ⟨declared, hsublist, ?_⟩, kept, hkept, ?_⟩
  · exact (halike .types .schema _ _ _).2 6 6 _ _ hplain hchecked
  · exact (hdeclared .types 6 _ hall).length_eq
  · intro flavor
    cases flavor with
    | types =>
      obtain ⟨_, sources, hsources, htext⟩ := hflavors .types 6 _ hplain
      rw [hclean] at htext
      exact ⟨sources, hsources.length_eq.symm, hplain.trans (congrArg (some ∘ some) htext)⟩
    | schema =>
      obtain ⟨_, sources, hsources, htext⟩ := hflavors .schema 6 _ hchecked
      rw [hclean] at htext
      exact ⟨sources, hsources.length_eq.symm, hchecked.trans (congrArg (some ∘ some) htext)⟩

end TypedClient
