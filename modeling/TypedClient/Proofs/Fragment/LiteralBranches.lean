/-
  TypedClient.Proofs.Fragment.LiteralBranches

  Unions of constants and one plain primitive, of which only the constants are rendered.  The
  primitive is to document the type of the constants, but no type is compared: a primitive of
  another type is left out like one of theirs, and its values are lost.
-/
import TypedClient.Generate

namespace TypedClient

/-! ## Types of values -/

/-- Is the number whole, however it is written? -/
def Number.isWhole : Number → Bool
  | .int _ => true
  | .dec value => 0 ≤ value.exponent || value.significand % Nat.pow 2 (-value.exponent).toNat == 0

/-- Does the value have the type of that name? A whole number is an integer and a number. -/
def Json.hasType (type : String) : Json → Bool
  | .null => type == "null"
  | .bool _ => type == "boolean"
  | .num value => type == "number" || (type == "integer" && value.isWhole)
  | .str _ => type == "string"
  | .arr _ => type == "array"
  | .obj _ => type == "object"

namespace Schema

/-! ## Members that are left out -/

/-- Values of the constants among some members. -/
def constantsOf (members : List SchemaNode) : List Json :=
  members.filterMap fun node => node.object?.bind (·.const)

/-- The one type that a member names. -/
def typeNameOf? (node : SchemaNode) : Option String := node.toSchema?.bind typeName?

/-- The member only documents values: all of them have the type that it names. -/
def Documents (node : SchemaNode) (values : List Json) : Prop :=
  ∃ type, typeNameOf? node = some type ∧ ∀ value ∈ values, value.hasType type = true

/-- A member that is no constant but a plain primitive stands among constants, of which there is
    one at least. -/
structure OpenAmong (before : List SchemaNode) (node : SchemaNode) (after : List SchemaNode) :
    Prop where
  constants : ∀ other ∈ before ++ after, isConstant other = true
  nonempty : before ++ after ≠ []
  varies : isConstant node = false
  plain : isPlainPrimitive node = true

/-- A plain primitive stands among constants of which one does not have its type. -/
inductive Overreaches : List SchemaNode → Prop
  | intro {before after : List SchemaNode} {node : SchemaNode} {type : String} {value : Json}
      (among : OpenAmong before node after) (typed : typeNameOf? node = some type)
      (mem : value ∈ constantsOf (before ++ after)) (foreign : value.hasType type = false) :
      Overreaches (before ++ node :: after)

section

variable {members before after : List SchemaNode} {node : SchemaNode}

/-- A plain primitive has a type. -/
theorem exists_type_of_isPlainPrimitive (h : isPlainPrimitive node = true) :
    ∃ type, typeNameOf? node = some type := by
  unfold isPlainPrimitive at h
  unfold typeNameOf?
  cases hread : node.toSchema? with
  | none =>
    rw [hread] at h
    cases h
  | some schema =>
    rw [hread, Option.any_some] at h
    cases htype : schema.typeName? with
    | none =>
      rw [htype] at h
      cases h
    | some type => exact ⟨type, htype⟩

/-- A plain primitive among constants is left out, and they are kept. -/
theorem OpenAmong.literalBranches_eq (h : OpenAmong before node after) :
    literalBranches (before ++ node :: after) = before ++ after := by
  obtain ⟨hbefore, hafter⟩ := List.forall_mem_append.mp h.constants
  have hconstants : (before ++ node :: after).filter isConstant = before ++ after := by
    rw [List.filter_append, List.filter_cons, h.varies, List.filter_eq_self.mpr hbefore,
      List.filter_eq_self.mpr hafter]
    rfl
  have hothers : (before ++ node :: after).filter (!isConstant ·) = [node] := by
    have hnone : ∀ others : List SchemaNode, (∀ other ∈ others, isConstant other = true) →
        others.filter (!isConstant ·) = [] := by
      intro others hothers
      refine List.filter_eq_nil_iff.mpr fun other hother => ?_
      rw [hothers other hother]
      exact Bool.false_ne_true
    rw [List.filter_append, List.filter_cons, h.varies, hnone before hbefore, hnone after hafter]
    rfl
  unfold literalBranches
  dsimp only
  rw [hconstants, hothers, if_pos]
  simp [h.nonempty, h.plain]

/-- When a member is left out, it is a plain primitive among constants. -/
theorem exists_openAmong (h : literalBranches members ≠ members) :
    ∃ before node after, members = before ++ node :: after ∧ OpenAmong before node after := by
  unfold literalBranches at h
  dsimp only at h
  split at h
  · next hsplit =>
    simp only [Bool.and_eq_true, Bool.not_eq_true', decide_eq_true_eq] at hsplit
    obtain ⟨⟨hsome, hone⟩, hplain⟩ := hsplit
    -- Some member is no constant, as otherwise all of them are kept.
    obtain ⟨node, hmem, hvaries⟩ : ∃ node ∈ members, isConstant node = false := by
      refine Classical.byContradiction fun hnone => h (List.filter_eq_self.mpr fun node hmem => ?_)
      cases hnode : isConstant node with
      | true => rfl
      | false => exact absurd ⟨node, hmem, hnode⟩ hnone
    obtain ⟨before, after, rfl, -⟩ := List.eq_append_cons_of_mem hmem
    rw [List.filter_append, List.filter_cons, hvaries] at hone
    simp only [Bool.not_false, if_true, List.length_append, List.length_cons] at hone
    have hbefore : before.filter (!isConstant ·) = [] := List.eq_nil_of_length_eq_zero (by omega)
    have hafter : after.filter (!isConstant ·) = [] := List.eq_nil_of_length_eq_zero (by omega)
    have hconstants : ∀ other ∈ before ++ after, isConstant other = true := by
      have hothers : (before ++ after).filter (!isConstant ·) = [] := by
        rw [List.filter_append, hbefore, hafter]
        rfl
      intro other hother
      simpa using List.filter_eq_nil_iff.mp hothers other hother
    refine ⟨before, node, after, rfl, hconstants, ?_, hvaries, ?_⟩
    · rintro hempty
      obtain ⟨rfl, rfl⟩ := List.append_eq_nil_iff.mp hempty
      simp [hvaries] at hsome
    · refine List.all_eq_true.mp hplain node (List.mem_filter.mpr ⟨hmem, ?_⟩)
      rw [hvaries]
      rfl
  · exact absurd rfl h

/-- A member that is no constant adds no value to those of the constants. -/
theorem constantsOf_eq (h : isConstant node = false) :
    constantsOf (before ++ node :: after) = constantsOf (before ++ after) := by
  have hnone : node.object?.bind (·.const) = none := by
    cases node with
    | bool admits => rfl
    | object schema => exact Option.isSome_eq_false_iff.mp h |> Option.isNone_iff_eq_none.mp
  unfold constantsOf
  rw [List.filterMap_append, List.filterMap_append, List.filterMap_cons, hnone]

/-- What is left out of the members is a plain primitive that all others are constants beside. -/
theorem openAmong_of_left_out (hmem : node ∈ members) (hout : node ∉ literalBranches members) :
    ∃ before after, members = before ++ node :: after ∧ OpenAmong before node after := by
  have hne : literalBranches members ≠ members := fun heq => hout (heq.symm ▸ hmem)
  obtain ⟨before, other, after, rfl, hamong⟩ := exists_openAmong hne
  rw [hamong.literalBranches_eq] at hout
  -- All members but the one are kept.
  have hnode : node = other := by
    rcases List.mem_append.mp hmem with hmem | hmem
    · exact absurd (List.mem_append_left _ hmem) hout
    · rcases List.mem_cons.mp hmem with heq | hmem
      · exact heq
      · exact absurd (List.mem_append_right _ hmem) hout
  exact ⟨before, after, hnode ▸ rfl, hnode ▸ hamong⟩

/-- A plain primitive among constants is not among what is kept. -/
theorem OpenAmong.not_mem (h : OpenAmong before node after) : node ∉ before ++ after := by
  intro hmem
  have hconstant := h.constants node hmem
  rw [h.varies] at hconstant
  cases hconstant

end

open Fragment (Renderer ofUnion unionOf)

/-- What is left out of a union documents the constants just when no plain primitive stands among
    constants of another type.  In every union, a member is left out just when it is a plain
    primitive that stands among constants, and then these are what is rendered, whatever the
    position; any other union is rendered as a whole. -/
theorem leftOut_documents_iff (members : List SchemaNode) :
    ((∀ node ∈ members, node ∉ literalBranches members → Documents node (constantsOf members)) ↔
      ¬ Overreaches members) ∧
    (∀ before node after, members = before ++ node :: after → OpenAmong before node after →
      ∀ render name, ofUnion render members name =
        ((before ++ after).mapM (render · (name.map Text.enumChildName))).map unionOf) ∧
    ((∀ before node after, members = before ++ node :: after → ¬ OpenAmong before node after) →
      ∀ render name, ofUnion render members name =
        (members.mapM (render · (name.map Text.enumChildName))).map unionOf) := by
  have hunion : ∀ (render : Renderer) name, ofUnion render members name =
      ((literalBranches members).mapM (render · (name.map Text.enumChildName))).map unionOf := by
    intro render name
    unfold ofUnion
    cases (literalBranches members).mapM (render · (name.map Text.enumChildName)) <;> rfl
  refine ⟨⟨fun h hover => ?_, fun h node hmem hout => ?_⟩, ?_, fun hnone render name => ?_⟩
  · cases hover with
    | @intro before after node type value among typed mem foreign =>
      have hout : node ∉ literalBranches (before ++ node :: after) :=
        among.literalBranches_eq ▸ among.not_mem
      obtain ⟨other, htyped, hall⟩ := h node (by simp) hout
      have htype : other = type := Option.some.inj (htyped.symm.trans typed)
      rw [htype, constantsOf_eq among.varies] at hall
      rw [hall value mem] at foreign
      cases foreign
  · obtain ⟨before, after, rfl, hamong⟩ := openAmong_of_left_out hmem hout
    obtain ⟨type, htype⟩ := exists_type_of_isPlainPrimitive hamong.plain
    refine ⟨type, htype, fun value hvalue => ?_⟩
    rw [constantsOf_eq hamong.varies] at hvalue
    cases hforeign : value.hasType type with
    | true => rfl
    | false => exact absurd (.intro hamong htype hvalue hforeign) h
  · rintro before node after rfl hamong render name
    rw [hunion, hamong.literalBranches_eq]
  · have hall : literalBranches members = members := by
      refine Classical.byContradiction fun hne => ?_
      obtain ⟨before, node, after, heq, hamong⟩ := exists_openAmong hne
      exact hnone before node after heq hamong
    rw [hunion, hall]

/-! ### Texts or nothing -/

/-- The constant `null`, and texts. -/
def nothingOrText : List SchemaNode :=
  [.object { const := some .null }, .object { type := some (.single "string") }]

/-- An array of such items. -/
def nothingsOrTexts : Schema where
  type := some (.single "array")
  items := some (.single (.object { anyOf := some nothingOrText }))

/-- Texts are left out beside `null`, and the array is declared without them. -/
theorem nothingOrText_loses_texts :
    (∃ node ∈ nothingOrText, node ∉ literalBranches nothingOrText ∧
      typeNameOf? node = some "string" ∧ ¬ Documents node (constantsOf nothingOrText)) ∧
    Overreaches nothingOrText ∧
    ((Registry.empty.add .null 8 "Names" (.object nothingsOrTexts) true).bind fun (_, registry) =>
      registry.declareAll .null 8 PlainTypes.spelling) =
        some ["export type Names = ReadonlyArray<null>"] := by
  have hamong : OpenAmong [.object { const := some .null }]
      (.object { type := some (.single "string") }) [] := by
    refine ⟨fun other hother => ?_, List.cons_ne_nil _ _, rfl, by decide +kernel⟩
    rw [List.mem_singleton.mp hother]
    rfl
  have htyped : typeNameOf? (.object { type := some (.single "string") }) = some "string" := by
    decide +kernel
  have hover : Overreaches nothingOrText :=
    .intro hamong htyped (List.mem_singleton.mpr rfl) (by decide +kernel)
  refine ⟨?_, hover, by decide +kernel⟩
  -- Some member is left out that does not document `null`, and it is the one for texts.
  refine Classical.byContradiction fun hnone => ?_
  refine (leftOut_documents_iff nothingOrText).1.mp (fun node hmem hout => ?_) hover
  refine Classical.byContradiction fun hdocuments => hnone ⟨node, hmem, hout, ?_, hdocuments⟩
  have hkept : literalBranches nothingOrText = [.object { const := some .null }] :=
    hamong.literalBranches_eq
  rw [hkept] at hout
  rcases List.mem_cons.mp hmem with rfl | hmem
  · exact absurd (List.mem_singleton.mpr rfl) hout
  · rw [List.mem_singleton.mp hmem]
    exact htyped

end Schema
end TypedClient
