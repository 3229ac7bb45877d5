/-
  TypedClient.Proofs.Schema.Distinct

  Property names occur once.  The objects of a document have distinct keys, so that the schemas
  read from it declare each property once; cleaning merges declarations and keeps that.
-/
import TypedClient.Proofs.Schema.Inheritance

namespace TypedClient

/-! ## Values of a document -/

namespace Json

theorem DistinctItems.of_mem {items : List Json} (h : DistinctItems items) {item : Json}
    (hitem : item ∈ items) : item.Distinct := by
  induction items with
  | nil => cases hitem
  | cons first rest ih =>
    rw [DistinctItems] at h
    rcases List.mem_cons.mp hitem with rfl | hitem
    · exact h.1
    · exact ih h.2 hitem

theorem DistinctFields.of_mem {fields : List (String × Json)} (h : DistinctFields fields)
    {field : String × Json} (hfield : field ∈ fields) : field.2.Distinct := by
  induction fields with
  | nil => cases hfield
  | cons first rest ih =>
    rw [DistinctFields] at h
    rcases List.mem_cons.mp hfield with rfl | hfield
    · exact h.1
    · exact ih h.2 hfield

theorem Distinct.of_get? {value inner : Json} (h : value.Distinct) {key : String}
    (hinner : value.get? key = some inner) : inner.Distinct := by
  cases value with
  | obj fields =>
    rw [Json.Distinct] at h
    exact h.2.of_mem (Keyed.mem_of_get? hinner)
  | _ => cases hinner

end Json

namespace Reference

theorem distinct_of_step {value next : Json} {token : String} (h : value.Distinct)
    (hstep : step value token = some next) : next.Distinct := by
  cases value with
  | obj fields => exact h.of_get? hstep
  | arr items =>
    obtain ⟨index, -, hindex⟩ := Option.bind_eq_some_iff.mp hstep
    rw [Json.Distinct] at h
    exact h.of_mem (List.mem_of_getElem? hindex)
  | null => cases hstep
  | bool _ => cases hstep
  | num _ => cases hstep
  | str _ => cases hstep

/-- A reference into a document with distinct keys leads to such a value. -/
theorem distinct_of_resolve {document target : Json} {reference : String} (h : document.Distinct)
    (hresolve : resolve document reference = some target) : target.Distinct := by
  have hfollow : ∀ (path : List String) {value : Json}, value.Distinct →
      follow value path = some target → target.Distinct := by
    intro path
    induction path with
    | nil =>
      intro value hvalue hfollow
      cases hfollow
      exact hvalue
    | cons token rest ih =>
      intro value hvalue hfollow
      obtain ⟨next, hnext, hrest⟩ := Option.bind_eq_some_iff.mp hfollow
      exact ih (distinct_of_step hvalue hnext) hrest
  unfold resolve at hresolve
  split at hresolve
  · exact hfollow _ h hresolve
  · cases hresolve

end Reference

namespace Schema

/-! ## Schemas -/

/-- The schema declares each property once, and so does every member of its compositions. -/
inductive Distinct : Schema → Prop where
  | intro {schema : Schema}
      (properties : ∀ properties, schema.properties = some properties →
        (Keyed.keys properties).Nodup)
      (members : ∀ (composition : Composition) (nodes : List SchemaNode) (member : Schema),
        composition.members? schema = some nodes → SchemaNode.object member ∈ nodes →
          Distinct member) :
      Distinct schema

section

variable {schema first second : Schema}

theorem Distinct.properties (h : Distinct schema) :
    ∀ properties, schema.properties = some properties → (Keyed.keys properties).Nodup := by
  cases h with
  | intro properties _ => exact properties

theorem Distinct.members (h : Distinct schema) :
    ∀ (composition : Composition) (nodes : List SchemaNode) (member : Schema),
      composition.members? schema = some nodes → SchemaNode.object member ∈ nodes →
        Distinct member := by
  cases h with
  | intro _ members => exact members

theorem distinct_empty : Distinct {} :=
  .intro (fun _ h => by cases h) fun composition _ _ h => by cases composition <;> cases h

theorem Distinct.merge (hfirst : Distinct first) (hsecond : Distinct second) :
    Distinct (Schema.merge first second) := by
  refine .intro ?_ ?_
  · intro properties hproperties
    rw [merge_properties] at hproperties
    split at hproperties
    · cases hproperties
      refine Keyed.nodup_keys_union ?_ _
      cases hnames : first.properties with
      | none => exact List.nodup_nil
      | some names => exact hfirst.properties names hnames
    · cases hproperties
  · intro composition nodes member hnodes hmember
    rcases members?_merge_cases first second hnodes with h | ⟨-, h⟩ | ⟨left, right, hl, hr, rfl⟩
    · exact hfirst.members composition nodes member h hmember
    · exact hsecond.members composition nodes member h hmember
    · rcases List.mem_append.mp hmember with hmember | hmember
      · exact hfirst.members composition left member hl hmember
      · exact hsecond.members composition right member hr hmember

theorem Distinct.remove (h : Distinct schema) (removed : Composition) :
    Distinct (removed.remove schema) := by
  refine .intro (fun properties hproperties => h.properties properties ?_) ?_
  · cases removed <;> exact hproperties
  · intro composition nodes member hnodes
    refine h.members composition nodes member ?_
    cases removed <;> cases composition <;> first | exact hnodes | cases hnodes

theorem Distinct.settleType (h : Distinct schema) : Distinct schema.settleType := by
  refine .intro (fun properties hproperties => h.properties properties ?_) ?_
  · rwa [settleType_properties] at hproperties
  · intro composition nodes member hnodes
    rw [members?_settleType] at hnodes
    exact h.members composition nodes member hnodes

theorem distinct_keptByCleaning : KeptByCleaning Distinct where
  merge _ _ hfirst hsecond := hfirst.merge hsecond
  remove composition _ h := h.remove composition
  settleType _ h := h.settleType
  lone composition _ member h hmembers :=
    h.members composition _ member hmembers (List.mem_cons_self ..)

/-- Cleaning keeps property names distinct. -/
theorem Distinct.cleanup (h : Distinct schema) : Distinct schema.cleanup :=
  distinct_keptByCleaning.cleanup h

/-! ## Reading -/

theorem keys_ofNamed (fields : List (String × Json)) :
    Keyed.keys (ofNamed fields) = Keyed.keys fields := by
  induction fields with
  | nil => rfl
  | cons field rest ih =>
    obtain ⟨name, value⟩ := field
    have hkeys : Keyed.keys (ofNamed ((name, value) :: rest)) =
        name :: Keyed.keys (ofNamed rest) := by
      cases value <;> rfl
    rw [hkeys, ih]
    rfl

theorem setPlain_properties (key : String) (value : Json) (schema : Schema) :
    (setPlain key value schema).properties = schema.properties := by
  unfold setPlain
  split <;> rfl

theorem members?_setPlain (key : String) (value : Json) (schema : Schema)
    (composition : Composition) :
    composition.members? (setPlain key value schema) = composition.members? schema := by
  unfold setPlain
  split <;> cases composition <;> rfl

theorem Distinct.setPlain (h : Distinct schema) (key : String) (value : Json) :
    Distinct (Schema.setPlain key value schema) := by
  refine .intro (fun properties hproperties => h.properties properties ?_) ?_
  · rwa [setPlain_properties] at hproperties
  · intro composition nodes member hnodes
    rw [members?_setPlain] at hnodes
    exact h.members composition nodes member hnodes

theorem Distinct.setNode (h : Distinct schema) (key : String) (node : SchemaNode) :
    Distinct (Schema.setNode key node schema) := by
  unfold Schema.setNode
  split
  · exact .intro h.properties fun composition nodes member hnodes =>
      h.members composition nodes member (by cases composition <;> exact hnodes)
  · exact .intro h.properties fun composition nodes member hnodes =>
      h.members composition nodes member (by cases composition <;> exact hnodes)
  · exact h

theorem setNodes_properties (key : String) (nodes : List SchemaNode) (schema : Schema) :
    (setNodes key nodes schema).properties = schema.properties := by
  unfold setNodes
  split <;> rfl

/-- The members of a composition are the old ones, or the list that is set. -/
theorem members?_setNodes_cases {key : String} {nodes others : List SchemaNode}
    {composition : Composition}
    (h : composition.members? (setNodes key nodes schema) = some others) :
    composition.members? schema = some others ∨ others = nodes := by
  unfold setNodes at h
  split at h <;> cases composition <;> first
    | exact Or.inl h
    | exact Or.inr (Option.some.inj h).symm

theorem Distinct.setNodes (h : Distinct schema) (key : String) {nodes : List SchemaNode}
    (hnodes : ∀ member, SchemaNode.object member ∈ nodes → Distinct member) :
    Distinct (Schema.setNodes key nodes schema) := by
  refine .intro (fun properties hproperties => h.properties properties ?_) ?_
  · rwa [setNodes_properties] at hproperties
  · intro composition others member hothers hmember
    rcases members?_setNodes_cases hothers with hothers | rfl
    · exact h.members composition others member hothers hmember
    · exact hnodes member hmember

end

mutual

theorem distinct_ofFields (fields : List (String × Json)) (h : Json.DistinctFields fields) :
    Distinct (ofFields fields) := by
  cases fields with
  | nil => rw [ofFields]; exact distinct_empty
  | cons field rest =>
    obtain ⟨key, value⟩ := field
    rw [Json.DistinctFields] at h
    rw [ofFields]
    exact distinct_setKeyword key value _ h.1 (distinct_ofFields rest h.2)

theorem distinct_setKeyword (key : String) (value : Json) (schema : Schema) (h : value.Distinct)
    (hschema : Distinct schema) : Distinct (setKeyword key value schema) := by
  cases value with
  | null => exact hschema.setPlain key _
  | bool admits => exact (hschema.setNode key (.bool admits)).setPlain key _
  | num _ => exact (hschema.setNode key (.bool true)).setPlain key _
  | str _ => exact (hschema.setNode key (.bool true)).setPlain key _
  | arr items =>
    rw [Json.Distinct] at h
    exact (hschema.setNodes key (distinct_ofItems items h)).setPlain key _
  | obj fields =>
    rw [Json.Distinct] at h
    rw [setKeyword]
    split
    · refine Distinct.setPlain (.intro ?_ ?_) key _
      · intro properties hproperties
        cases hproperties
        rw [keys_ofNamed]
        exact h.1
      · intro composition nodes member hnodes
        have hold : composition.members? schema = some nodes := by
          cases composition <;> exact hnodes
        exact hschema.members composition nodes member hold
    · exact (hschema.setNode key _).setPlain key _

theorem distinct_ofItems (items : List Json) (h : Json.DistinctItems items) :
    ∀ member, SchemaNode.object member ∈ ofItems items → Distinct member := by
  cases items with
  | nil =>
    rw [ofItems]
    exact fun _ hmember => by cases hmember
  | cons item rest =>
    intro member hmember
    rw [Json.DistinctItems] at h
    have hrest := distinct_ofItems rest h.2 member
    cases item with
    | obj fields =>
      rw [ofItems] at hmember
      rw [Json.Distinct] at h
      rcases List.mem_cons.mp hmember with heq | hmember
      · cases heq
        exact distinct_ofFields fields h.1.2
      · exact hrest hmember
    | bool admits =>
      rw [ofItems] at hmember
      exact hrest ((List.mem_cons.mp hmember).resolve_left (by simp))
    | null => exact hrest ((List.mem_cons.mp hmember).resolve_left (by simp))
    | num _ => exact hrest ((List.mem_cons.mp hmember).resolve_left (by simp))
    | str _ => exact hrest ((List.mem_cons.mp hmember).resolve_left (by simp))
    | arr _ => exact hrest ((List.mem_cons.mp hmember).resolve_left (by simp))

end

end Schema

/-- The cleaned schema of a value with distinct keys declares each property once. -/
theorem SchemaNode.distinct_of_toSchema? {value : Json} (h : value.Distinct) {schema : Schema}
    (hschema : (SchemaNode.ofJson value).toSchema? = some schema) : schema.Distinct := by
  cases value with
  | obj fields =>
    rw [Json.Distinct] at h
    cases hschema
    exact (Schema.distinct_ofFields fields h.2).cleanup
  | bool admits =>
    cases admits with
    | true => cases hschema; exact Schema.distinct_empty
    | false => cases hschema
  | null => cases hschema; exact Schema.distinct_empty
  | num _ => cases hschema; exact Schema.distinct_empty
  | str _ => cases hschema; exact Schema.distinct_empty
  | arr _ => cases hschema; exact Schema.distinct_empty

end TypedClient
