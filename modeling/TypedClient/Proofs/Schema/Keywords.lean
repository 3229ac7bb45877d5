/-
  TypedClient.Proofs.Schema.Keywords

  A schema is what the values under its keywords make it.  Each keyword sets what no other one
  touches, so that neither the order of the fields of an object counts, nor a field whose key is
  not a keyword.
-/
import TypedClient.Proofs.Schema.Distinct

namespace TypedClient
namespace Schema

/-- The keywords that hold no schema. -/
def plainKeywords : List String :=
  ["type", "$ref", "required", "enum", "const", "nullable", "default", "description", "title",
    "format", "contentEncoding", "pattern", "minLength", "maxLength", "minItems", "maxItems",
    "minimum", "maximum", "exclusiveMinimum", "exclusiveMaximum"]

/-- The keywords that hold schemas. -/
def schemaKeywords : List String :=
  ["properties", "additionalProperties", "items", "allOf", "anyOf", "oneOf"]

/-- The schemas of the fields of a value. -/
def propertiesOf? : Json → Option (List (String × SchemaNode))
  | .obj fields => some (ofNamed fields)
  | _ => none

/-- The schema that a value stands for, unless it is `null`. -/
def nodeOf? : Json → Option SchemaNode
  | .null => none
  | value => some (.ofJson value)

/-- The schemas of the items of a value. -/
def nodesOf? : Json → Option (List SchemaNode)
  | .arr items => some (ofItems items)
  | _ => none

/-- A schema for each position, or one for all of them. -/
def itemsOf? (value : Json) : Option Items :=
  ((nodesOf? value).map Items.tuple).or ((nodeOf? value).map Items.single)

/-- The schema that the values under its keywords make. -/
def ofKeywords (look : String → Option Json) : Schema where
  type := (look "type").bind typeOf?
  ref := (look "$ref").bind Json.asString?
  properties := (look "properties").bind propertiesOf?
  required := (look "required").bind textsOf?
  additionalProperties := (look "additionalProperties").bind nodeOf?
  items := (look "items").bind itemsOf?
  enum := (look "enum").bind Json.asArray?
  const := look "const"
  allOf := (look "allOf").bind nodesOf?
  anyOf := (look "anyOf").bind nodesOf?
  oneOf := (look "oneOf").bind nodesOf?
  nullable := (look "nullable").bind Json.asBool?
  default := look "default"
  description := (look "description").bind Json.asString?
  title := (look "title").bind Json.asString?
  format := (look "format").bind Json.asString?
  contentEncoding := (look "contentEncoding").bind Json.asString?
  pattern := (look "pattern").bind Json.asString?
  minLength := (look "minLength").bind countOf?
  maxLength := (look "maxLength").bind countOf?
  minItems := (look "minItems").bind countOf?
  maxItems := (look "maxItems").bind countOf?
  minimum := (look "minimum").bind numberOf?
  maximum := (look "maximum").bind numberOf?
  exclusiveMinimum := (look "exclusiveMinimum").bind exclusiveOf?
  exclusiveMaximum := (look "exclusiveMaximum").bind exclusiveOf?

/-- Only the values under keywords count. -/
theorem ofKeywords_congr {look other : String → Option Json}
    (h : ∀ key ∈ plainKeywords ++ schemaKeywords, look key = other key) :
    ofKeywords look = ofKeywords other := by
  simp only [plainKeywords, schemaKeywords, List.cons_append, List.nil_append,
    List.forall_mem_cons] at h
  simp only [ofKeywords, h]

section

variable {key : String}

/-- A key that is not among the keywords without schemas sets none of them. -/
theorem setPlain_of_not_mem (h : key ∉ plainKeywords) (value : Json) (schema : Schema) :
    setPlain key value schema = schema := by
  unfold setPlain
  split
  case h_21 => rfl
  all_goals exact absurd (by simp [plainKeywords]) h

/-- A key that is not among the keywords with schemas sets none of them. -/
theorem setKeyword_of_not_mem (h : key ∉ schemaKeywords) (value : Json) (schema : Schema) :
    setKeyword key value schema = setPlain key value schema := by
  simp only [schemaKeywords, List.mem_cons, List.not_mem_nil, or_false, not_or] at h
  obtain ⟨hproperties, hadditional, hitems, hallOf, hanyOf, honeOf⟩ := h
  have hnode : ∀ node, setNode key node schema = schema := by
    intro node
    unfold setNode
    split
    · exact absurd rfl hadditional
    · exact absurd rfl hitems
    · rfl
  have hnodes : ∀ nodes, setNodes key nodes schema = schema := by
    intro nodes
    unfold setNodes
    split
    · exact absurd rfl hitems
    · exact absurd rfl hallOf
    · exact absurd rfl hanyOf
    · exact absurd rfl honeOf
    · exact absurd rfl hadditional
    · rfl
  unfold setKeyword
  cases value with
  | null => rfl
  | arr items => exact congrArg _ (hnodes _)
  | obj fields =>
    dsimp only
    rw [if_neg (by simpa using hproperties), hnode]
  | bool admits => exact congrArg _ (hnode _)
  | num number => exact congrArg _ (hnode _)
  | str text => exact congrArg _ (hnode _)

/-- One more keyword is one more value to look up. -/
theorem setKeyword_ofKeywords (look : String → Option Json) (value : Json) :
    setKeyword key value (ofKeywords fun other => if other = key then none else look other) =
      ofKeywords fun other => if other = key then some value else look other := by
  by_cases hschema : key ∈ schemaKeywords
  · simp only [schemaKeywords, List.mem_cons, List.not_mem_nil, or_false] at hschema
    -- What such a keyword sets goes by the kind of the value.
    rcases hschema with rfl | rfl | rfl | rfl | rfl | rfl
    all_goals cases value <;> rfl
  rw [setKeyword_of_not_mem hschema]
  by_cases hplain : key ∈ plainKeywords
  · simp only [plainKeywords, List.mem_cons, List.not_mem_nil, or_false] at hplain
    rcases hplain with rfl | rfl | rfl | rfl | rfl | rfl | rfl | rfl | rfl | rfl | rfl | rfl | rfl |
      rfl | rfl | rfl | rfl | rfl | rfl | rfl
    all_goals rfl
  · rw [setPlain_of_not_mem hplain]
    have hne : ∀ other ∈ plainKeywords ++ schemaKeywords, other ≠ key := by
      rintro other hother rfl
      exact (List.mem_append.mp hother).elim hplain hschema
    refine ofKeywords_congr fun other hother => ?_
    rw [if_neg (hne other hother), if_neg (hne other hother)]

end

/-- The schema of an object is what the values under its keywords make it. -/
theorem ofFields_eq {fields : List (String × Json)} (h : (Keyed.keys fields).Nodup) :
    ofFields fields = ofKeywords (Keyed.get? · fields) := by
  induction fields with
  | nil => rfl
  | cons field rest ih =>
    obtain ⟨key, value⟩ := field
    obtain ⟨hkey, hrest⟩ := List.nodup_cons.mp h
    have hfree : ∀ other, Keyed.get? other rest =
        if other = key then none else Keyed.get? other rest := by
      intro other
      split
      · next heq => exact heq ▸ Keyed.get?_eq_none_iff.mpr hkey
      · rfl
    calc setKeyword key value (ofFields rest)
        = setKeyword key value (ofKeywords fun other =>
            if other = key then none else Keyed.get? other rest) := by
          rw [ih hrest]
          exact congrArg _ (ofKeywords_congr fun other _ => hfree other)
      _ = ofKeywords fun other => if other = key then some value else Keyed.get? other rest :=
          setKeyword_ofKeywords _ value
      _ = ofKeywords (Keyed.get? · ((key, value) :: rest)) :=
          ofKeywords_congr fun other _ => (Keyed.get?_cons ..).symm

/-- Objects with the same values under all keywords have the same schema. -/
theorem ofFields_congr {first second : List (String × Json)}
    (hfirst : (Keyed.keys first).Nodup) (hsecond : (Keyed.keys second).Nodup)
    (h : ∀ key ∈ plainKeywords ++ schemaKeywords, Keyed.get? key first = Keyed.get? key second) :
    ofFields first = ofFields second := by
  rw [ofFields_eq hfirst, ofFields_eq hsecond]
  exact ofKeywords_congr h

end Schema
end TypedClient
