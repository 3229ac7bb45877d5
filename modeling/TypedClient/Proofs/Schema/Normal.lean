/-
  TypedClient.Proofs.Schema.Normal

  The normal form of schemas: what cleaning leaves. A clean schema has no type list with `null` in
  it or with less than two names, no empty `oneOf`, and no composition of one member other than
  the one that admits nothing.

  One pass over a schema whose lone members are clean already makes it clean, and a clean schema
  is a fixed point of every pass. So the bound on the number of passes never decides the result.
-/
import TypedClient.Schema.Cleanup

namespace TypedClient
namespace Schema

/-! ## Keywords of a merged schema -/

section Merge

variable (first second : Schema)

@[simp] theorem merge_type : (merge first second).type = first.type.or second.type := by
  unfold merge
  split
  · rfl
  · split <;> rfl

@[simp] theorem merge_ref : (merge first second).ref = first.ref.or second.ref := by
  unfold merge
  split
  · rfl
  · split <;> rfl

@[simp] theorem merge_allOf : (merge first second).allOf = first.allOf.or second.allOf := by
  unfold merge
  split
  · rfl
  · split <;> rfl

@[simp] theorem merge_oneOf : (merge first second).oneOf = first.oneOf.or second.oneOf := by
  unfold merge
  split
  · rfl
  · split <;> rfl

/-- The `anyOf` of a merged schema is that of one of the two, or both one after the other. -/
theorem merge_anyOf_cases :
    (merge first second).anyOf = first.anyOf.or second.anyOf ∨
      ∃ left right, first.anyOf = some left ∧ second.anyOf = some right ∧
        (merge first second).anyOf = some (left ++ right) := by
  unfold merge
  split
  · exact Or.inl rfl
  · split
    · next left right hleft hright => exact Or.inr ⟨left, right, hleft, hright, rfl⟩
    · exact Or.inl rfl

/-- The members under a keyword of a merged schema are those of the first, or else those of the
    second, or both in a row. -/
theorem members?_merge_cases {composition : Composition} {nodes : List SchemaNode}
    (h : composition.members? (merge first second) = some nodes) :
    composition.members? first = some nodes ∨
      (composition.members? first = none ∧ composition.members? second = some nodes) ∨
      ∃ left right, composition.members? first = some left ∧
        composition.members? second = some right ∧ nodes = left ++ right := by
  have choice : (composition.members? first).or (composition.members? second) = some nodes →
      composition.members? first = some nodes ∨
        (composition.members? first = none ∧ composition.members? second = some nodes) :=
    fun h => Option.or_eq_some_iff.mp h
  cases composition with
  | allOf => exact (choice ((merge_allOf first second).symm.trans h)).imp_right Or.inl
  | oneOf => exact (choice ((merge_oneOf first second).symm.trans h)).imp_right Or.inl
  | anyOf =>
    -- Only `anyOf` lists are joined.
    have h : (merge first second).anyOf = some nodes := h
    rcases merge_anyOf_cases first second with heq | ⟨left, right, hleft, hright, heq⟩
    · exact (choice (heq.symm.trans h)).imp_right Or.inl
    · exact Or.inr (Or.inr ⟨left, right, hleft, hright, Option.some.inj (h.symm.trans heq)⟩)

theorem merge_properties : (merge first second).properties =
    if first.properties.isSome || second.properties.isSome then
      some (mergedProperties first second)
    else none := by
  unfold merge
  split
  · rfl
  · next h =>
    have hnone : first.properties = none ∧ second.properties = none := by
      simpa using h
    split <;> simp [overlay, hnone.1, hnone.2]

/-- The properties of a merged schema are the union of both, also when neither declares any. -/
theorem getD_merge_properties : (merge first second).properties.getD [] =
    Keyed.union (first.properties.getD []) (second.properties.getD []) := by
  rw [merge_properties]
  split
  · rfl
  · next h =>
    obtain ⟨hfirst, hsecond⟩ : first.properties = none ∧ second.properties = none := by
      simpa using h
    rw [hfirst, hsecond]
    rfl

theorem isSome_merge_properties : (merge first second).properties.isSome =
    (first.properties.isSome || second.properties.isSome) := by
  rw [merge_properties]
  split
  · next h => exact h.symm
  · next h => exact (Bool.not_eq_true _ ▸ h).symm

theorem merge_required : (merge first second).required =
    if first.properties.isSome || second.properties.isSome then mergedRequired first second
    else first.required.or second.required := by
  unfold merge
  split
  · rfl
  · split <;> rfl

end Merge

theorem overlay_empty_right (schema : Schema) : overlay schema empty = schema := by
  cases schema
  simp [overlay, empty]

theorem merge_empty_right (schema : Schema) : merge schema empty = schema := by
  unfold merge
  rw [overlay_empty_right]
  split
  · next h =>
    obtain ⟨properties, hproperties⟩ : ∃ properties, schema.properties = some properties := by
      simpa [Option.isSome_iff_exists, empty] using h
    have hunion : mergedProperties schema empty = properties := by
      rw [mergedProperties, hproperties]
      rfl
    have hrequired : mergedRequired schema empty = schema.required := by
      cases h' : schema.required <;> simp [mergedRequired, empty, h']
    rw [hunion, hrequired, ← hproperties]
    cases schema
    rfl
  · split
    · next hright => cases hright
    · rfl

/-! ## Normal form -/

/-- Nothing is left for a pass to do, but for the lone members of the `pending` compositions. -/
structure NormalBut (pending : List Composition) (schema : Schema) : Prop where
  /-- A composition of one member has the member that admits nothing. -/
  lone : ∀ composition, composition ∉ pending → ∀ node,
    composition.members? schema = some [node] → node = .bool false
  /-- There is no empty `oneOf`. -/
  oneOf : schema.oneOf ≠ some []
  /-- A type list has at least two names, none of them `null`. -/
  type : ∀ names, schema.type = some (.several names) → 2 ≤ names.length ∧ "null" ∉ names

/-- Nothing is left for a pass to do. -/
abbrev Normal (schema : Schema) : Prop := NormalBut [] schema

/-- Without a composition there are only the type names to clean. -/
theorem normal_of_plain {schema : Schema} (hallOf : schema.allOf = none)
    (hanyOf : schema.anyOf = none) (honeOf : schema.oneOf = none)
    (htype : ∀ names, schema.type = some (.several names) → 2 ≤ names.length ∧ "null" ∉ names) :
    Normal schema where
  lone composition _ node h := by
    cases composition with
    | allOf => exact absurd (hallOf.symm.trans h) nofun
    | anyOf => exact absurd (hanyOf.symm.trans h) nofun
    | oneOf => exact absurd (honeOf.symm.trans h) nofun
  oneOf h := absurd (honeOf.symm.trans h) nofun
  type := htype

theorem normal_empty : Normal empty := normal_of_plain rfl rfl rfl nofun

theorem Normal.normalBut {schema : Schema} (h : Normal schema) (pending : List Composition) :
    NormalBut pending schema where
  lone composition _ node := h.lone composition List.not_mem_nil node
  oneOf := h.oneOf
  type := h.type

/-- Merging keeps the normal form. -/
theorem NormalBut.merge {pending : List Composition} {first second : Schema}
    (hfirst : NormalBut pending first) (hsecond : NormalBut pending second) :
    NormalBut pending (merge first second) where
  lone composition hpending node h := by
    rcases members?_merge_cases first second h with h | ⟨-, h⟩ | ⟨left, right, hleft, hright, h⟩
    · exact hfirst.lone composition hpending node h
    · exact hsecond.lone composition hpending node h
    · -- Of two lists that make a single member one is empty.
      rcases List.append_eq_singleton_iff.mp h.symm with ⟨-, rfl⟩ | ⟨rfl, -⟩
      · exact hsecond.lone composition hpending node hright
      · exact hfirst.lone composition hpending node hleft
  oneOf h := by
    rw [merge_oneOf] at h
    rcases Option.or_eq_some_iff.mp h with h | ⟨-, h⟩
    · exact hfirst.oneOf h
    · exact hsecond.oneOf h
  type names h := by
    rw [merge_type] at h
    rcases Option.or_eq_some_iff.mp h with h | ⟨-, h⟩
    · exact hfirst.type names h
    · exact hsecond.type names h

/-- A clean schema stays clean without a composition. -/
theorem NormalBut.remove {pending : List Composition} {schema : Schema} {composition : Composition}
    (h : NormalBut (composition :: pending) schema) :
    NormalBut pending (composition.remove schema) where
  lone other hother node hnode := by
    by_cases heq : other = composition
    · subst heq
      cases other <;> cases hnode
    · have hsame : other.members? (composition.remove schema) = other.members? schema := by
        cases other <;> cases composition <;> first | rfl | exact absurd rfl heq
      rw [hsame] at hnode
      exact h.lone other (by simp [heq, hother]) node hnode
  oneOf hone := by
    cases composition with
    | allOf => exact h.oneOf hone
    | anyOf => exact h.oneOf hone
    | oneOf => cases hone
  type names hnames := by
    cases composition <;> exact h.type names hnames

/-- The normal form says nothing about the reference. -/
theorem Normal.withoutRef {schema : Schema} (h : Normal schema) :
    Normal { schema with ref := none } where
  lone composition hpending node hnode := by
    cases composition with
    | allOf => exact h.lone .allOf hpending node hnode
    | anyOf => exact h.lone .anyOf hpending node hnode
    | oneOf => exact h.lone .oneOf hpending node hnode
  oneOf := h.oneOf
  type := h.type

/-! ## Lone members -/

theorem lone?_eq_some_iff {composition : Composition} {schema member : Schema} :
    schema.lone? composition = some member ↔
      composition.members? schema = some [.object member] := by
  unfold lone?
  split
  · next other hmembers => simp [hmembers]
  · next hother =>
    constructor
    · intro h
      cases h
    · intro h
      exact absurd h (hother member)

/-- Merging a clean schema over another one brings no new lone member. -/
theorem lone?_merge {first second member : Schema} {composition : Composition}
    (hfirst : Normal first) (h : (merge first second).lone? composition = some member) :
    second.lone? composition = some member := by
  rw [lone?_eq_some_iff] at h ⊢
  have hnone : ¬ composition.members? first = some [.object member] := by
    intro hmember
    have := hfirst.lone composition List.not_mem_nil _ hmember
    cases this
  rcases members?_merge_cases first second h with h | ⟨-, h⟩ | ⟨left, right, hleft, hright, h⟩
  · exact absurd h hnone
  · exact h
  · rcases List.append_eq_singleton_iff.mp h.symm with ⟨-, rfl⟩ | ⟨rfl, -⟩
    · exact hright
    · exact absurd hleft hnone

/-- Removing a composition brings no new lone member. -/
theorem lone?_remove {schema member : Schema} {removed composition : Composition}
    (h : (removed.remove schema).lone? composition = some member) :
    schema.lone? composition = some member := by
  rw [lone?_eq_some_iff] at h ⊢
  cases removed <;> cases composition <;> first | exact h | cases h

/-! ## One pass -/

/-- Settling the type changes a type list, and `nullable` along with it. -/
theorem settleType_cases (schema : Schema) :
    (∃ names nullable, schema.type = some (.several names) ∧
      schema.settleType = { schema with type := withoutNull names, nullable := nullable }) ∨
    ((∀ names, schema.type ≠ some (.several names)) ∧ schema.settleType = schema) := by
  unfold settleType
  split
  · next names hnames =>
    dsimp only
    split
    · exact Or.inl ⟨names, some true, hnames, rfl⟩
    · exact Or.inl ⟨names, schema.nullable, hnames, rfl⟩
  · next hother => exact Or.inr ⟨hother, rfl⟩

/-- Settling the type leaves every other keyword but `nullable`. -/
theorem settleType_eq (schema : Schema) : ∃ type nullable,
    schema.settleType = { schema with type := type, nullable := nullable } := by
  rcases settleType_cases schema with ⟨names, nullable, -, heq⟩ | ⟨-, heq⟩
  · exact ⟨_, nullable, heq⟩
  · refine ⟨schema.type, schema.nullable, heq.trans ?_⟩
    cases schema
    rfl

theorem settleType_properties (schema : Schema) :
    schema.settleType.properties = schema.properties := by
  obtain ⟨_, _, heq⟩ := settleType_eq schema
  rw [heq]

theorem settleType_required (schema : Schema) :
    schema.settleType.required = schema.required := by
  obtain ⟨_, _, heq⟩ := settleType_eq schema
  rw [heq]

theorem settleType_ref (schema : Schema) : schema.settleType.ref = schema.ref := by
  obtain ⟨_, _, heq⟩ := settleType_eq schema
  rw [heq]

theorem members?_settleType (composition : Composition) (schema : Schema) :
    composition.members? schema.settleType = composition.members? schema := by
  obtain ⟨_, _, heq⟩ := settleType_eq schema
  rw [heq]
  cases composition <;> rfl

theorem settleType_oneOf (schema : Schema) : schema.settleType.oneOf = schema.oneOf :=
  members?_settleType .oneOf schema

/-- What is left of a type list has at least two names, none of them `null`. -/
theorem withoutNull_several {names rest : List String}
    (h : withoutNull names = some (.several rest)) : 2 ≤ rest.length ∧ "null" ∉ rest := by
  unfold withoutNull at h
  split at h
  · split at h <;> cases h
  · cases h
  · next hempty hsingle =>
    obtain rfl : names.filter (· != "null") = rest := by simpa using h
    constructor
    · -- The filtered list is neither empty nor a single name.
      match hrest : names.filter (· != "null") with
      | [] => exact absurd hrest hempty
      | [name] => exact absurd hrest (hsingle name)
      | _ :: _ :: _ => simp
    · simp

theorem settleType_type {schema : Schema} {names : List String}
    (h : schema.settleType.type = some (.several names)) : 2 ≤ names.length ∧ "null" ∉ names := by
  rcases settleType_cases schema with ⟨list, nullable, -, heq⟩ | ⟨hother, heq⟩
  · rw [heq] at h
    exact withoutNull_several h
  · rw [heq] at h
    exact absurd h (hother names)

/-- A settled type list without `null` is kept. -/
theorem withoutNull_of_not_mem {names : List String} (hlength : 2 ≤ names.length)
    (hnull : "null" ∉ names) : withoutNull names = some (.several names) := by
  have hfilter : names.filter (· != "null") = names := by
    rw [List.filter_eq_self]
    intro name hname
    exact bne_iff_ne.mpr fun heq => hnull (heq ▸ hname)
  unfold withoutNull
  rw [hfilter]
  match names, hlength with
  | _ :: _ :: _, _ => rfl

theorem settleType_of_normal {schema : Schema} (h : Normal schema) :
    schema.settleType = schema := by
  unfold settleType
  split
  · next names hnames =>
    obtain ⟨hlength, hnull⟩ := h.type names hnames
    have hcontains : names.contains "null" = false := by simpa using hnull
    dsimp only
    rw [hcontains, Bool.false_and, if_neg Bool.false_ne_true, withoutNull_of_not_mem hlength hnull,
      ← hnames]
    -- A schema is its own keywords put together.
    cases schema
    rfl
  · rfl

theorem dropEmptyOneOf_of_normal {schema : Schema} (h : Normal schema) :
    schema.dropEmptyOneOf = schema := by
  unfold dropEmptyOneOf
  split
  · next hone => exact absurd hone h.oneOf
  · rfl

theorem lone?_dropEmptyOneOf (composition : Composition) (schema : Schema) :
    schema.dropEmptyOneOf.lone? composition = schema.lone? composition := by
  unfold dropEmptyOneOf
  split
  · next hone => cases composition <;> simp [lone?, Composition.members?, hone]
  · rfl

theorem lone?_settleType (composition : Composition) (schema : Schema) :
    schema.settleType.lone? composition = schema.lone? composition := by
  unfold lone?
  rw [members?_settleType]

/-- Types and empty unions come first in a pass, and leave only lone members. -/
theorem normalBut_dropEmptyOneOf (schema : Schema) :
    NormalBut [.allOf, .anyOf, .oneOf] schema.settleType.dropEmptyOneOf where
  lone composition hpending := by
    cases composition <;> exact absurd (by simp) hpending
  oneOf h := by
    unfold dropEmptyOneOf at h
    split at h
    · cases h
    · next hone => exact hone h
  type names h := by
    unfold dropEmptyOneOf at h
    split at h <;> exact settleType_type h

section Collapse

variable {clean clean' : Schema → Schema} {composition : Composition} {schema : Schema}

/-- Collapsing a composition of which no member is merged or dropped changes nothing. -/
theorem collapse_of_normal (h : Normal schema) : collapse clean composition schema = schema := by
  unfold collapse
  split
  · next member hmember =>
    have := h.lone composition List.not_mem_nil _ hmember
    cases this
  · next htrue =>
    have := h.lone composition List.not_mem_nil _ htrue
    cases this
  · rfl

/-- A collapsed composition is in normal form, when its lone member is clean. -/
theorem NormalBut.collapse {pending : List Composition}
    (h : NormalBut (composition :: pending) schema)
    (hclean : ∀ member, schema.lone? composition = some member → Normal (clean member)) :
    NormalBut pending (Schema.collapse clean composition schema) := by
  unfold Schema.collapse
  split
  · next member hmember =>
    exact ((hclean member (lone?_eq_some_iff.mpr hmember)).normalBut pending).merge h.remove
  · exact h.remove
  · next hobject htrue =>
    refine ⟨?_, h.oneOf, h.type⟩
    intro other hother node hnode
    by_cases heq : other = composition
    · subst heq
      match node, hnode with
      | .object member, hnode => exact absurd hnode (hobject member)
      | .bool true, hnode => exact absurd hnode htrue
      | .bool false, _ => rfl
    · exact h.lone other (by simp [heq, hother]) node hnode

/-- Collapsing brings no new lone member. -/
theorem lone?_collapse (composition : Composition) {other : Composition} {member : Schema}
    (hclean : ∀ member, schema.lone? composition = some member → Normal (clean member))
    (h : (collapse clean composition schema).lone? other = some member) :
    schema.lone? other = some member := by
  unfold collapse at h
  split at h
  · next lone hlone =>
    exact lone?_remove (lone?_merge (hclean lone (lone?_eq_some_iff.mpr hlone)) h)
  · exact lone?_remove h
  · exact h

theorem collapse_congr (composition : Composition)
    (h : ∀ member, schema.lone? composition = some member → clean member = clean' member) :
    collapse clean composition schema = collapse clean' composition schema := by
  unfold collapse
  split
  · next member hmember => rw [h member (lone?_eq_some_iff.mpr hmember)]
  · rfl
  · rfl

/-- A pass with clean lone members makes a schema clean. -/
theorem normal_pass
    (hclean : ∀ composition member, schema.lone? composition = some member →
      Normal (clean member)) :
    Normal (pass clean schema) := by
  have hlone : ∀ composition member,
      schema.settleType.dropEmptyOneOf.lone? composition = some member → Normal (clean member) := by
    intro composition member h
    rw [lone?_dropEmptyOneOf, lone?_settleType] at h
    exact hclean composition member h
  have hany := fun composition member h =>
    hlone composition member (lone?_collapse .allOf (hlone .allOf) h)
  have hone := fun composition member h =>
    hany composition member (lone?_collapse .anyOf (hany .anyOf) h)
  exact (((normalBut_dropEmptyOneOf schema).collapse (hlone .allOf)).collapse
    (hany .anyOf)).collapse (hone .oneOf)

/-- A pass depends on how the lone members of the schema are cleaned, and on nothing else. -/
theorem pass_congr
    (hclean : ∀ composition member, schema.lone? composition = some member → Normal (clean member))
    (h : ∀ composition member, schema.lone? composition = some member →
      clean member = clean' member) :
    pass clean schema = pass clean' schema := by
  have hlone : ∀ composition member,
      schema.settleType.dropEmptyOneOf.lone? composition = some member →
        schema.lone? composition = some member := by
    intro composition member h
    rwa [lone?_dropEmptyOneOf, lone?_settleType] at h
  have hall := fun composition member h => hclean composition member (hlone composition member h)
  have hany := fun composition member h =>
    hlone composition member (lone?_collapse .allOf (hall .allOf) h)
  have hone := fun composition member h =>
    hany composition member (lone?_collapse .anyOf
      (fun member h => hclean .anyOf member (hany .anyOf member h)) h)
  unfold pass
  rw [collapse_congr .oneOf fun member h' => h .oneOf member (hone .oneOf member h'),
    collapse_congr .anyOf fun member h' => h .anyOf member (hany .anyOf member h'),
    collapse_congr .allOf fun member h' => h .allOf member (hlone .allOf member h')]

theorem pass_of_normal (h : Normal schema) : pass clean schema = schema := by
  unfold pass
  rw [settleType_of_normal h, dropEmptyOneOf_of_normal h, collapse_of_normal h,
    collapse_of_normal h, collapse_of_normal h]

end Collapse

/-! ## Cleaning -/

/-- Depth to which the lone member of a composition nests. -/
def depthUnder (schema : Schema) (composition : Composition) : Nat :=
  ((schema.lone? composition).map fun member => member.loneDepth + 1).getD 0

theorem loneDepth_eq_max (schema : Schema) :
    schema.loneDepth = max (schema.depthUnder .allOf)
      (max (schema.depthUnder .anyOf) (schema.depthUnder .oneOf)) := by
  rw [loneDepth]
  dsimp only
  unfold depthUnder
  refine congr (congrArg max ?_) (congr (congrArg max ?_) ?_)
  all_goals
    split
    · next member hmember =>
      rw [hmember]
      rfl
    · next hnone =>
      rw [hnone]
      rfl

/-- A lone member nests less deep than the schema that holds it. -/
theorem loneDepth_lt_of_lone {composition : Composition} {schema member : Schema}
    (h : schema.lone? composition = some member) : member.loneDepth < schema.loneDepth := by
  have hunder : member.loneDepth < schema.depthUnder composition := by
    unfold depthUnder
    rw [h]
    exact Nat.lt_succ_self _
  rw [loneDepth_eq_max schema]
  cases composition with
  | allOf => exact Nat.lt_of_lt_of_le hunder (Nat.le_max_left ..)
  | anyOf =>
    exact Nat.lt_of_lt_of_le hunder
      (Nat.le_trans (Nat.le_max_left ..) (Nat.le_max_right ..))
  | oneOf =>
    exact Nat.lt_of_lt_of_le hunder
      (Nat.le_trans (Nat.le_max_right ..) (Nat.le_max_right ..))

/-- The first pass settles a schema whose lone members are cleaned to normal forms. -/
theorem repeat_pass {clean : Schema → Schema} {schema : Schema}
    (hclean : ∀ composition member, schema.lone? composition = some member → Normal (clean member))
    (passes : Nat) : Nat.repeat (pass clean) (passes + 1) schema = pass clean schema := by
  induction passes with
  | zero => rfl
  | succ passes ih =>
    rw [Nat.repeat, ih]
    exact pass_of_normal (normal_pass hclean)

/-- Cleaning within some depth is one pass, when the lone members come out clean. -/
theorem cleanupWithin_succ {depth : Nat} {schema : Schema}
    (hclean : ∀ composition member, schema.lone? composition = some member →
      Normal (cleanupWithin depth member)) :
    cleanupWithin (depth + 1) schema = pass (cleanupWithin depth) schema := by
  rw [cleanupWithin, maxPasses]
  exact repeat_pass hclean 31

/-- With enough depth for the lone members a schema is made clean, whatever the depth. -/
theorem cleanupWithin_spec (depth : Nat) :
    ∀ schema : Schema, schema.loneDepth < depth →
      Normal (cleanupWithin depth schema) ∧
        cleanupWithin depth schema = schema.cleanup := by
  induction depth using Nat.strongRecOn with
  | ind depth ih =>
    intro schema hdepth
    -- One pass at any depth that is enough for the lone members.
    have hpass : ∀ deep, schema.loneDepth ≤ deep → deep < depth →
        Normal (pass (cleanupWithin deep) schema) ∧
          cleanupWithin (deep + 1) schema = pass (cleanupWithin deep) schema := by
      intro deep hle hlt
      have hclean : ∀ composition member, schema.lone? composition = some member →
          Normal (cleanupWithin deep member) := by
        intro composition member hmember
        exact (ih deep hlt member
          (Nat.lt_of_lt_of_le (loneDepth_lt_of_lone hmember) hle)).1
      exact ⟨normal_pass hclean, cleanupWithin_succ hclean⟩
    -- The given depth and the schema's own depth are both enough, and lead to the same pass.
    obtain ⟨deep, rfl⟩ : ∃ deep, depth = deep + 1 := ⟨depth - 1, by omega⟩
    obtain ⟨hnormal, heq⟩ := hpass deep (by omega) (by omega)
    obtain ⟨-, heq'⟩ := hpass schema.loneDepth (Nat.le_refl _) (by omega)
    refine ⟨heq ▸ hnormal, ?_⟩
    rw [cleanup, heq, heq']
    have hmembers : ∀ composition member, schema.lone? composition = some member →
        Normal (cleanupWithin deep member) ∧
          cleanupWithin deep member = cleanupWithin schema.loneDepth member := by
      intro composition member hmember
      have hlt := loneDepth_lt_of_lone hmember
      obtain ⟨hdeep, hclean⟩ := ih deep (by omega) member (by omega)
      obtain ⟨-, hclean'⟩ := ih schema.loneDepth (by omega) member hlt
      exact ⟨hdeep, hclean.trans hclean'.symm⟩
    exact pass_congr (fun composition member h => (hmembers composition member h).1)
      (fun composition member h => (hmembers composition member h).2)

/-- Cleaning reaches the normal form. -/
theorem normal_cleanup (schema : Schema) : Normal schema.cleanup :=
  (cleanupWithin_spec (schema.loneDepth + 1) schema (Nat.lt_succ_self _)).1

/-- Cleaning is one pass over cleaned lone members. -/
theorem cleanup_eq_cleanupOnce (schema : Schema) : schema.cleanup = schema.cleanupOnce := by
  have hspec : ∀ composition member, schema.lone? composition = some member →
      Normal (cleanupWithin schema.loneDepth member) ∧
        cleanupWithin schema.loneDepth member = member.cleanup :=
    fun composition member h => cleanupWithin_spec _ member (loneDepth_lt_of_lone h)
  have hpasses : schema.cleanup = pass (cleanupWithin schema.loneDepth) schema :=
    cleanupWithin_succ fun composition member h => (hspec composition member h).1
  rw [hpasses]
  exact pass_congr (fun composition member h => (hspec composition member h).1)
    (fun composition member h => (hspec composition member h).2)

/-- A clean schema is its own cleaned form. -/
theorem cleanup_of_normal {schema : Schema} (h : Normal schema) : schema.cleanup = schema := by
  rw [cleanup_eq_cleanupOnce]
  exact pass_of_normal h

@[simp] theorem cleanup_cleanup (schema : Schema) : schema.cleanup.cleanup = schema.cleanup :=
  cleanup_of_normal (normal_cleanup schema)

/-! ## What cleaning keeps -/

/-- What the schema has, merging and the other steps of cleaning keep. -/
structure KeptByCleaning (P : Schema → Prop) : Prop where
  merge : ∀ first second, P first → P second → P (Schema.merge first second)
  remove : ∀ (composition : Composition) schema, P schema → P (composition.remove schema)
  settleType : ∀ schema, P schema → P schema.settleType
  /-- The only member of a composition has it, too. -/
  lone : ∀ (composition : Composition) schema member, P schema →
    composition.members? schema = some [.object member] → P member

section

variable {P : Schema → Prop} {schema : Schema}

theorem KeptByCleaning.collapse (h : KeptByCleaning P) {clean : Schema → Schema}
    (hclean : ∀ member, P member → P (clean member)) (composition : Composition)
    (hschema : P schema) : P (Schema.collapse clean composition schema) := by
  unfold Schema.collapse
  split
  · next member hmembers =>
    have hmember : P member := h.lone composition schema member hschema hmembers
    exact h.merge _ _ (hclean member hmember) (h.remove composition schema hschema)
  · exact h.remove composition schema hschema
  · exact hschema

theorem KeptByCleaning.dropEmptyOneOf (h : KeptByCleaning P) (hschema : P schema) :
    P schema.dropEmptyOneOf := by
  unfold Schema.dropEmptyOneOf
  split
  · exact h.remove .oneOf schema hschema
  · exact hschema

/-- What all steps of cleaning keep, cleaning keeps. -/
theorem KeptByCleaning.cleanup (h : KeptByCleaning P) (hschema : P schema) : P schema.cleanup := by
  have hwithin : ∀ (depth : Nat) (schema : Schema), P schema → P (cleanupWithin depth schema) := by
    intro depth
    induction depth with
    | zero => exact fun _ hschema => hschema
    | succ depth ih =>
      intro schema hschema
      rw [cleanupWithin]
      generalize maxPasses = passes
      induction passes with
      | zero => exact hschema
      | succ passes ihPasses =>
        have hsettled := h.dropEmptyOneOf (h.settleType _ ihPasses)
        exact h.collapse ih .oneOf (h.collapse ih .anyOf (h.collapse ih .allOf hsettled))
  exact hwithin _ schema hschema

end

end Schema

namespace SchemaNode

open Schema

variable {node : SchemaNode} {schema : Schema}

/-- The schema that is read from a node is clean. -/
theorem normal_of_toSchema? (h : node.toSchema? = some schema) : Normal schema := by
  match node, h with
  | .bool true, h => exact Option.some.inj h ▸ normal_empty
  | .object other, h => exact Option.some.inj h ▸ normal_cleanup other

theorem toSchema?_of_normal (h : Normal schema) : (object schema).toSchema? = some schema := by
  rw [toSchema?, cleanup_of_normal h]

/-- The schema of a node stands for the node. -/
theorem toSchema?_object (h : node.toSchema? = some schema) :
    (object schema).toSchema? = some schema :=
  toSchema?_of_normal (normal_of_toSchema? h)

end SchemaNode
end TypedClient
