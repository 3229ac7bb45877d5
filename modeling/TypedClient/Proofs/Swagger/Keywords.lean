/-
  TypedClient.Proofs.Swagger.Keywords

  Where the fields of a parameter, a header and a form field go.  The keywords in a fixed list are
  taken out and make up a schema, and every other field stays where it is: a keyword that is missing
  in the list is no part of the schema.
-/
import TypedClient.Proofs.Swagger.Distinct

namespace TypedClient
namespace Swagger

/-! ## Keywords that are taken out -/

/-- Taking the keywords out of an object gives them and the other fields, both by their keys. -/
structure Takes (keywords : List String) (fields : Keyed Json)
    (taken : Keyed Json × Keyed Json) : Prop where
  schema : ∀ key, Keyed.get? key taken.1 = if key ∈ keywords then Keyed.get? key fields else none
  rest : ∀ key, Keyed.get? key taken.2 = if key ∈ keywords then none else Keyed.get? key fields
  nodup : (Keyed.keys taken.2).Nodup

/-- None of the keywords of a schema is there. -/
def Bare (fields : Keyed Json) : Prop :=
  ∀ keyword ∈ schemaKeywords, Keyed.get? keyword fields = none

section

variable {fields converted : Keyed Json} {key : String}

/-- One more keyword is taken out of what the others have left. -/
theorem Takes.insert {keywords : List String} {schema rest : Keyed Json} {value : Json}
    (h : Takes keywords fields (schema, rest)) (hvalue : Keyed.get? key rest = some value) :
    Takes (keywords ++ [key]) fields (schema.insert key value, rest.swapErase key) := by
  have hold := h.rest key
  rw [hvalue] at hold
  have hfields : Keyed.get? key fields = some value := by
    split at hold
    · cases hold
    · exact hold.symm
  refine ⟨fun other => ?_, fun other => ?_, Keyed.nodup_keys_swapErase h.nodup⟩
  · by_cases hother : other = key
    · subst hother
      rw [Keyed.get?_insert_self, if_pos (by simp), hfields]
    · rw [Keyed.get?_insert_of_ne _ _ hother, h.schema]
      simp [hother]
  · by_cases hother : other = key
    · subst hother
      rw [Keyed.get?_swapErase_self _ h.nodup, if_pos (by simp)]
    · rw [Keyed.get?_swapErase_of_ne h.nodup hother, h.rest]
      simp [hother]

/-- A keyword that is not there is passed over. -/
theorem Takes.skip {keywords : List String} {schema rest : Keyed Json}
    (h : Takes keywords fields (schema, rest)) (hvalue : Keyed.get? key rest = none) :
    Takes (keywords ++ [key]) fields (schema, rest) := by
  have hold := h.rest key
  rw [hvalue] at hold
  refine ⟨fun other => ?_, fun other => ?_, h.nodup⟩
  · by_cases hother : other = key
    · subst hother
      rw [h.schema, if_pos (List.mem_append_right _ (List.mem_singleton.mpr rfl))]
      split
      · rfl
      · next hnew => rw [hold, if_neg hnew]
    · rw [h.schema]
      simp [hother]
  · by_cases hother : other = key
    · subst hother
      rw [hvalue, if_pos (by simp)]
    · rw [h.rest]
      simp [hother]

/-- The schema that is taken out of an object has just the keywords of the list. -/
theorem takes_takeSchema (h : (Keyed.keys fields).Nodup) :
    Takes schemaKeywords fields (takeSchema fields) := by
  unfold takeSchema
  -- From the end of the list, since the last keyword is taken from what the others leave.
  generalize schemaKeywords = keywords
  induction keywords using List.reverseRecOn with
  | nil => exact ⟨fun _ => rfl, fun _ => rfl, h⟩
  | append_singleton keywords key ih =>
    rw [List.foldl_append, List.foldl_cons, List.foldl_nil]
    generalize keywords.foldl _ ([], fields) = taken at ih ⊢
    obtain ⟨schema, rest⟩ := taken
    dsimp only [takeField]
    cases hvalue : Keyed.get? key rest with
    | none => exact ih.skip hvalue
    | some value => exact ih.insert hvalue

/-- There is no schema to take out just when none of the keywords is there. -/
theorem isEmpty_takeSchema_iff (h : (Keyed.keys fields).Nodup) :
    (takeSchema fields).1.isEmpty = true ↔ Bare fields := by
  have htakes := takes_takeSchema h
  rw [List.isEmpty_iff]
  constructor
  · intro hempty keyword hkeyword
    have hschema := htakes.schema keyword
    rw [hempty, if_pos hkeyword] at hschema
    exact hschema.symm
  · intro hbare
    refine List.eq_nil_iff_forall_not_mem.mpr fun field hfield => ?_
    have hmem : field.1 ∈ Keyed.keys (takeSchema fields).1 := List.mem_map_of_mem hfield
    refine absurd hmem (Keyed.get?_eq_none_iff.mp ?_)
    rw [htakes.schema]
    split
    · next hkeyword => exact hbare _ hkeyword
    · rfl

/-! ## Parameters and headers -/

/-- Fields that conversion writes into a parameter or a header, or takes out of one. -/
def movedKeys : List String := ["schema", "collectionFormat", "style", "explode"]

/-- The object is converted by moving its keywords into a schema: when there are none, it keeps the
    schema that it has. -/
structure Nests (fields converted : Keyed Json) : Prop where
  nodup : (Keyed.keys converted).Nodup
  other : ∀ key, key ∉ schemaKeywords → key ∉ movedKeys →
    Keyed.get? key converted = Keyed.get? key fields
  bare : Bare fields → Keyed.get? "schema" converted = Keyed.get? "schema" fields
  schema : ¬ Bare fields → Keyed.get? "schema" converted = some (.obj (takeSchema fields).1)

theorem nests_nestSchema (h : (Keyed.keys fields).Nodup) : Nests fields (nestSchema fields) := by
  have htakes := takes_takeSchema h
  have hempty := isEmpty_takeSchema_iff h
  have heq : nestSchema fields = if (takeSchema fields).1.isEmpty then (takeSchema fields).2
      else (takeSchema fields).2.insert "schema" (.obj (takeSchema fields).1) := by
    unfold nestSchema
    generalize takeSchema fields = taken
    rfl
  rw [heq]
  by_cases hbare : Bare fields
  · rw [if_pos (hempty.mpr hbare)]
    refine ⟨htakes.nodup, fun key hkey _ => ?_, fun _ => ?_, fun hnot => absurd hbare hnot⟩
    · rw [htakes.rest, if_neg hkey]
    · rw [htakes.rest, if_neg (by decide)]
  · rw [if_neg fun h => hbare (hempty.mp h)]
    refine ⟨Keyed.nodup_keys_insert htakes.nodup, fun key hkey hmoved => ?_,
      fun h => absurd h hbare, fun _ => Keyed.get?_insert_self ..⟩
    have hne : key ≠ "schema" := fun heq => hmoved (heq ▸ List.mem_cons_self ..)
    rw [Keyed.get?_insert_of_ne _ _ hne, htakes.rest, if_neg hkey]

/-- The style of a list is told by three fields; the others stay. -/
theorem get?_convertListFormat (h : (Keyed.keys fields).Nodup) (hkey : key ∉ movedKeys.tail) :
    Keyed.get? key (convertListFormat fields) = Keyed.get? key fields := by
  obtain ⟨hformat, hstyle, hexplode⟩ : key ≠ "collectionFormat" ∧ key ≠ "style" ∧
      key ≠ "explode" := by simpa [movedKeys] using hkey
  have hrest : Keyed.get? key (fields.swapErase "collectionFormat") = Keyed.get? key fields :=
    Keyed.get?_swapErase_of_ne h hformat
  rcases convertListFormat_cases fields with heq | ⟨_, _, heq⟩
  · rw [heq, hrest]
  · rw [heq, Keyed.get?_insert_of_ne _ _ hexplode, Keyed.get?_insert_of_ne _ _ hstyle, hrest]

theorem nodup_keys_convertListFormat (h : (Keyed.keys fields).Nodup) :
    (Keyed.keys (convertListFormat fields)).Nodup := by
  have hrest : (Keyed.keys (fields.swapErase "collectionFormat")).Nodup :=
    Keyed.nodup_keys_swapErase h
  rcases convertListFormat_cases fields with heq | ⟨_, _, heq⟩
  · exact heq ▸ hrest
  · exact heq ▸ Keyed.nodup_keys_insert (Keyed.nodup_keys_insert hrest)

theorem nests_parameter (h : (Keyed.keys fields).Nodup) :
    Nests fields (convertListFormat (nestSchema fields)) := by
  have hnests := nests_nestSchema h
  have hschema : Keyed.get? "schema" (convertListFormat (nestSchema fields)) =
      Keyed.get? "schema" (nestSchema fields) := get?_convertListFormat hnests.nodup (by decide)
  refine ⟨nodup_keys_convertListFormat hnests.nodup, fun key hkey hmoved => ?_, ?_, ?_⟩
  · rw [get?_convertListFormat hnests.nodup fun hmem => hmoved (List.mem_of_mem_tail hmem)]
    exact hnests.other key hkey hmoved
  · rw [hschema]
    exact hnests.bare
  · rw [hschema]
    exact hnests.schema

/-! ## Form fields -/

/-- The schema of a form field has the keywords of the field, and its description. -/
theorem get?_schema_ofParameter? {field : FormField} (h : (Keyed.keys fields).Nodup)
    (hfield : FormField.ofParameter? (.obj fields) = some field) (hkey : key ≠ "description") :
    Keyed.get? key field.schema =
      if key ∈ schemaKeywords then Keyed.get? key fields else none := by
  have hschema := (takes_takeSchema h).schema key
  unfold FormField.ofParameter? at hfield
  obtain ⟨others, hobject, hfield⟩ := Option.bind_eq_some_iff.mp hfield
  obtain ⟨name, -, hfield⟩ := Option.bind_eq_some_iff.mp hfield
  cases hobject
  generalize takeSchema fields = taken at hschema hfield
  obtain ⟨schema, rest⟩ := taken
  rw [← hschema, ← Option.some.inj hfield]
  dsimp only
  split
  · exact Keyed.get?_insert_of_ne _ _ hkey
  · rfl

end

end Swagger
end TypedClient
