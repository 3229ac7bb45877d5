/-
  TypedClient.Proofs.Json.Distinct

  Objects without repeated keys, and the edits that keep them so.  An edit of an object moves, adds
  or drops fields, and what it adds has distinct keys itself: so the keys stay distinct at every
  depth, whatever an edit does to the sequence of the fields.
-/
import TypedClient.Proofs.Schema.Distinct

namespace TypedClient.Json

/-- What holds of a value when it holds of its items or of the values of its fields, holds of every
    value. -/
@[elab_as_elim]
theorem induction {motive : Json → Prop} (null : motive .null)
    (bool : ∀ value, motive (.bool value)) (num : ∀ value, motive (.num value))
    (str : ∀ value, motive (.str value))
    (arr : ∀ items, (∀ item ∈ items, motive item) → motive (.arr items))
    (obj : ∀ fields, (∀ field ∈ fields, motive field.2) → motive (.obj fields)) :
    ∀ value, motive value
  | .null => null
  | .bool value => bool value
  | .num value => num value
  | .str value => str value
  | .arr items => arr items fun item _ => induction null bool num str arr obj item
  | .obj fields => obj fields fun field _ => induction null bool num str arr obj field.2
termination_by value => sizeOf value
decreasing_by
  · have hitem := List.sizeOf_lt_of_mem ‹item ∈ items›
    simp only [Json.arr.sizeOf_spec]
    omega
  · have hfield := List.sizeOf_lt_of_mem ‹field ∈ fields›
    have hvalue : sizeOf field = 1 + sizeOf field.1 + sizeOf field.2 := rfl
    simp only [Json.obj.sizeOf_spec]
    omega

section

variable {items : List Json} {fields : Keyed Json}

theorem distinct_arr_iff : (Json.arr items).Distinct ↔ ∀ item ∈ items, item.Distinct := by
  rw [Json.Distinct]
  induction items with
  | nil => simp [DistinctItems]
  | cons item rest ih => rw [DistinctItems, ih, List.forall_mem_cons]

theorem distinct_obj_iff : (Json.obj fields).Distinct ↔
    (Keyed.keys fields).Nodup ∧ ∀ field ∈ fields, field.2.Distinct := by
  have hfields : DistinctFields fields ↔ ∀ field ∈ fields, field.2.Distinct := by
    induction fields with
    | nil => simp [DistinctFields]
    | cons field rest ih => rw [DistinctFields, ih, List.forall_mem_cons]
  rw [Json.Distinct, hfields]

theorem Distinct.nodup (h : (Json.obj fields).Distinct) : (Keyed.keys fields).Nodup :=
  (distinct_obj_iff.mp h).1

theorem distinct_nil : (Json.obj []).Distinct := by
  simp [distinct_obj_iff, Keyed.keys]

theorem distinct_str (text : String) : (Json.str text).Distinct := trivial

theorem distinct_bool (value : Bool) : (Json.bool value).Distinct := trivial

/-! ## Edits -/

/-- Fields taken from an object with distinct keys, in any sequence. -/
theorem Distinct.of_subperm {kept : Keyed Json} (h : (Json.obj fields).Distinct)
    (hkept : kept.Subperm fields) : (Json.obj kept).Distinct := by
  rw [distinct_obj_iff] at h ⊢
  refine ⟨?_, fun field hfield => h.2 field (hkept.subset hfield)⟩
  obtain ⟨others, hperm, hsublist⟩ := hkept
  exact (hperm.map Prod.fst).nodup_iff.mp (h.1.sublist (hsublist.map Prod.fst))

theorem Distinct.filter (h : (Json.obj fields).Distinct) (keep : String × Json → Bool) :
    (Json.obj (fields.filter keep)).Distinct :=
  h.of_subperm List.filter_sublist.subperm

theorem Distinct.swapErase (h : (Json.obj fields).Distinct) (key : String) :
    (Json.obj (Keyed.swapErase key fields)).Distinct := by
  have hperm : (Keyed.swapErase key fields).Perm (Keyed.erase key fields) :=
    Keyed.swapErase_perm (distinct_obj_iff.mp h).1
  exact h.of_subperm (hperm.subperm.trans List.filter_sublist.subperm)

theorem Distinct.removeAll (h : (Json.obj fields).Distinct) (removed : List String) :
    (Json.obj (removed.foldl (fun fields key => Keyed.swapErase key fields) fields)).Distinct :=
  List.foldlRecOn (motive := fun fields => (Json.obj fields).Distinct) removed _ h
    fun _ hfields key _ => hfields.swapErase key

theorem Distinct.insert (h : (Json.obj fields).Distinct) (key : String) {value : Json}
    (hvalue : value.Distinct) : (Json.obj (Keyed.insert key value fields)).Distinct := by
  rw [distinct_obj_iff] at h ⊢
  refine ⟨Keyed.nodup_keys_insert h.1, fun field hfield => ?_⟩
  rcases Keyed.mem_insert hfield with hfield | rfl
  · exact h.2 field hfield
  · exact hvalue

theorem Distinct.insertNew (h : (Json.obj fields).Distinct) (key : String) {value : Json}
    (hvalue : value.Distinct) : (Json.obj (Keyed.insertNew key value fields)).Distinct := by
  rw [distinct_obj_iff] at h ⊢
  refine ⟨Keyed.nodup_keys_insertNew h.1, fun field hfield => ?_⟩
  rcases Keyed.mem_insertNew hfield with hfield | rfl
  · exact h.2 field hfield
  · exact hvalue

/-- A list of pairs makes an object with distinct keys, even when it repeats some. -/
theorem distinct_ofList {pairs : List (String × Json)}
    (h : ∀ pair ∈ pairs, pair.2.Distinct) : (Json.obj (Keyed.ofList pairs)).Distinct :=
  List.foldlRecOn (motive := fun fields => (Json.obj fields).Distinct) pairs _ distinct_nil
    fun _ hfields pair hpair => hfields.insert pair.1 (h pair hpair)

theorem Distinct.mapValues (h : (Json.obj fields).Distinct) {f : Json → Json}
    (hf : ∀ field ∈ fields, field.2.Distinct → (f field.2).Distinct) :
    (Json.obj (Keyed.mapValues f fields)).Distinct := by
  rw [distinct_obj_iff] at h ⊢
  refine ⟨(Keyed.keys_mapValues f fields).symm ▸ h.1, fun field hfield => ?_⟩
  obtain ⟨old, hold, rfl⟩ := List.mem_map.mp hfield
  exact hf old hold (h.2 old hold)

end

end TypedClient.Json
