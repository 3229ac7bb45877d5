/-
  TypedClient.Proofs.Operation.UniqueIds

  No two operations of a document have one id.  An id that is taken is followed by the least number
  from 2 up that makes it new, and the search for this number ends: there are more numbers than ids
  that are taken.
-/
import Mathlib.Data.List.Perm.Subperm
import TypedClient.Proofs.Operation.Requests

namespace TypedClient
namespace Operation

/-! ## The search for a number -/

/-- Counting up, the search for a number that makes an id new ends at the last number.  As long as
    the id with a number is taken the search goes on. -/
inductive Search (ids : List String) (id : String) : Nat → Nat → Prop
  | free {n : Nat} (new : id ++ toString n ∉ ids) : Search ids id n n
  | taken {n last : Nat} (used : id ++ toString n ∈ ids) (later : Search ids id (n + 1) last) :
      Search ids id n last

section

variable {ids : List String} {id : String} {n last : Nat}

/-- The number that a search ends at makes the id new. -/
theorem Search.new (h : Search ids id n last) : id ++ toString last ∉ ids := by
  induction h with
  | free new => exact new
  | taken _ _ ih => exact ih

/-- A search does not count down. -/
theorem Search.le (h : Search ids id n last) : n ≤ last := by
  induction h with
  | free => exact Nat.le_refl _
  | taken _ _ ih => exact Nat.le_of_succ_le ih

/-- A search goes past numbers that are taken. -/
theorem search_of_taken {count : Nat} (htaken : ∀ k < count, id ++ toString (n + k) ∈ ids)
    (hnew : id ++ toString (n + count) ∉ ids) : Search ids id n (n + count) := by
  induction count generalizing n with
  | zero => exact .free hnew
  | succ count ih =>
    rw [← Nat.succ_add_eq_add_succ] at hnew ⊢
    refine .taken (htaken 0 (Nat.succ_pos _)) (ih (fun k hk => ?_) hnew)
    rw [Nat.succ_add_eq_add_succ]
    exact htaken (k + 1) (Nat.succ_lt_succ hk)

/-- Different numbers after an id make different ids. -/
theorem numbered_injective (id : String) : Function.Injective fun n : Nat => id ++ toString n := by
  intro n m h
  have hdigits : toString n = toString m := (String.append_right_inj id).mp h
  have hvalue := congrArg (fun text => Nat.ofDigitChars 10 text.toList 0) hdigits
  simpa [Nat.toString_eq_ofList_toDigits] using hvalue

/-- Of one more numbers than there are ids, one makes an id new. -/
theorem exists_new (ids : List String) (id : String) (start : Nat) :
    ∃ k ≤ ids.length, id ++ toString (start + k) ∉ ids := by
  by_contra hnone
  push Not at hnone
  have hsubset : (List.range (ids.length + 1)).map (fun k => id ++ toString (start + k)) ⊆ ids := by
    intro numbered hmem
    obtain ⟨k, hk, rfl⟩ := List.mem_map.mp hmem
    exact hnone k (Nat.lt_succ_iff.mp (List.mem_range.mp hk))
  have hnodup : ((List.range (ids.length + 1)).map
      (fun k => id ++ toString (start + k))).Nodup :=
    List.nodup_range.map fun k l h => Nat.add_left_cancel (numbered_injective id h)
  have hlength := (List.subperm_of_subset hnodup hsubset).length_le
  rw [List.length_map, List.length_range] at hlength
  omega

/-- The search from 2 up ends, for every id and whatever is taken, and it ends at the number that
    operations get. -/
theorem search_freshSuffix (ids : List String) (id : String) :
    Search ids id 2 (freshSuffix ids id) := by
  -- Among the candidates there is one that makes the id new, so that one is found.
  have hsome : ((List.range (ids.length + 1)).find?
      (fun k => !ids.contains (id ++ toString (k + 2)))).isSome := by
    obtain ⟨k, hk, hnew⟩ := exists_new ids id 2
    refine List.find?_isSome.mpr ⟨k, List.mem_range.mpr (Nat.lt_succ_of_le hk), ?_⟩
    rw [Nat.add_comm, List.contains_eq_mem, decide_eq_false hnew]
    rfl
  obtain ⟨k, hfound⟩ := Option.isSome_iff_exists.mp hsome
  have hfresh : freshSuffix ids id = 2 + k := by
    unfold freshSuffix
    dsimp only
    rw [List.find?_map, Function.comp_def, hfound, Nat.add_comm]
    rfl
  obtain ⟨hnew, -, htaken⟩ := List.find?_range_eq_some.mp hfound
  rw [hfresh]
  refine search_of_taken (fun j hj => ?_) ?_
  · simpa [Nat.add_comm] using htaken j hj
  · simpa [Nat.add_comm] using hnew

end

/-! ## The ids of a document -/

/-- A new id has no suffix, and one that is taken has the number that the search ends at. -/
theorem suffixFor_cases (ids : List String) (id : String) :
    (id ∉ ids ∧ suffixFor ids id = "") ∨
      (id ∈ ids ∧ ∃ last, Search ids id 2 last ∧ suffixFor ids id = toString last) := by
  by_cases htaken : id ∈ ids
  · have hsuffix : suffixFor ids id = toString (freshSuffix ids id) := if_pos (by simpa using htaken)
    exact Or.inr ⟨htaken, freshSuffix ids id, search_freshSuffix ids id, hsuffix⟩
  · exact Or.inl ⟨htaken, suffixFor_of_not_mem htaken⟩

/-- The id that an operation gets is not taken. -/
theorem Reading.id_of_not_mem (taken : List String) (written : Written) :
    (Reading.of taken written).id ∉ taken := by
  rw [Reading.id_of]
  rcases suffixFor_cases taken (baseId written) with ⟨hnew, hsuffix⟩ | ⟨-, last, hsearch, hsuffix⟩
  · rw [hsuffix, String.append_empty]
    exact hnew
  · rw [hsuffix]
    exact hsearch.new

/-- The id is the one that an operation starts with, or that with a number of 2 or more after it. -/
def Numbered (base id : String) : Prop := id = base ∨ ∃ n : Nat, 2 ≤ n ∧ id = base ++ toString n

theorem Reading.numbered (taken : List String) (written : Written) :
    Numbered (baseId written) (Reading.of taken written).id := by
  rw [Reading.id_of]
  rcases suffixFor_cases taken (baseId written) with ⟨-, hsuffix⟩ | ⟨-, last, hsearch, hsuffix⟩
  · rw [hsuffix]
    exact Or.inl String.append_empty
  · rw [hsuffix]
    exact Or.inr ⟨last, hsearch.le, rfl⟩

/-- The ids that are taken are the ids handed out so far, so that the ids of the rest are new
    among them all. -/
theorem nodup_readFrom {taken : List String} (htaken : taken.Nodup) (written : List Written) :
    (taken ++ (readFrom taken written).map (·.id)).Nodup := by
  induction written generalizing taken with
  | nil => exact (List.append_nil taken).symm ▸ htaken
  | cons first rest ih =>
    have hnext : (taken ++ [(Reading.of taken first).id]).Nodup :=
      List.nodup_append_comm.mp (List.nodup_cons.mpr ⟨Reading.id_of_not_mem taken first, htaken⟩)
    rw [readFrom, List.map_cons, List.append_cons]
    exact ih hnext

theorem map_written_readFrom (taken : List String) (written : List Written) :
    (readFrom taken written).map (·.written) = written := by
  induction written generalizing taken with
  | nil => rfl
  | cons first rest ih => exact congrArg (first :: ·) (ih _)

/-- Operations get their ids in the order in which they are written. -/
theorem numbered_readFrom (taken : List String) (written : List Written) :
    List.Forall₂ Numbered (written.map baseId) ((readFrom taken written).map (·.id)) := by
  induction written generalizing taken with
  | nil => exact .nil
  | cons first rest ih => exact .cons (Reading.numbered taken first) (ih _)

/-- What an operation starts with is an id in the end: its own, or one that is taken before it. -/
theorem baseId_mem_readFrom (taken : List String) {written : List Written} {first : Written}
    (h : first ∈ written) : baseId first ∈ taken ++ (readFrom taken written).map (·.id) := by
  induction written generalizing taken with
  | nil => cases h
  | cons other rest ih =>
    rw [readFrom, List.map_cons, List.append_cons]
    rcases List.mem_cons.mp h with rfl | h
    · by_cases htaken : baseId first ∈ taken
      · exact List.mem_append_left _ (List.mem_append_left _ htaken)
      · have hid : (Reading.of taken first).id = baseId first := by
          rw [Reading.id_of, suffixFor_of_not_mem htaken, String.append_empty]
        rw [hid]
        simp
    · exact ih _ h

/-- Operations have the ids that they are read under. -/
theorem map_id_of_extracts {document : Json} {fuel : Nat} {readings : List Reading}
    {operations : List Operation} (h : List.Forall₂ (Extracts document fuel) readings operations) :
    operations.map (·.id) = readings.map (·.id) := by
  have hsame := h.imp fun _ _ hextract => hextract.reads.id.symm
  rw [← List.forall₂_map_right_iff, ← List.forall₂_map_left_iff, List.forall₂_eq_eq_eq] at hsame
  exact hsame.symm

/-- Ids are unique.  The search for a number ends for every id, whatever ids are taken.  So the
    operations of a document have ids that differ pairwise, in the order in which they are written,
    and each of them is the id that its operation starts with, or that with a number of 2 or more
    after it. -/
theorem extracted_ids_nodup (document : Json) :
    (∀ ids id, Search ids id 2 (freshSuffix ids id)) ∧
    ∀ fuel start operations registry,
      extractAll document fuel start = some (operations, registry) →
      (operations.map (·.id)).Nodup ∧
      List.Forall₂ Numbered ((written document).map baseId) (operations.map (·.id)) := by
  refine ⟨search_freshSuffix, fun fuel start operations registry h => ?_⟩
  obtain ⟨hextracts, -⟩ := extractAll_extracts h
  rw [map_id_of_extracts hextracts]
  exact ⟨nodup_readFrom List.nodup_nil (written document), numbered_readFrom [] (written document)⟩

/-- A repeated id, with a number that another operation has already, and ids of which nothing is
    left. -/
def repeatedIds : Json :=
  .obj [("paths", .obj (["list", "list2", "list", "list 3", "1", "2"].mapIdx fun index id =>
    ("/" ++ toString index, .obj [("get", .obj [("operationId", .str id)])])))]

theorem repeatedIds_renamed : ∃ operations registry,
    extractAll repeatedIds 8 .empty = some (operations, registry) ∧
    operations.map (·.id) = ["list", "list2", "list3", "list32", "", "2"] ∧
    (operations.map (·.id)).Nodup ∧
    List.Forall₂ Numbered ((written repeatedIds).map baseId) (operations.map (·.id)) := by
  have hids : (extractAll repeatedIds 8 .empty).map (fun result => result.1.map (·.id)) =
      some ["list", "list2", "list3", "list32", "", "2"] := by decide +kernel
  obtain ⟨⟨operations, registry⟩, h, hids⟩ := Option.map_eq_some_iff.mp hids
  exact ⟨operations, registry, h, hids, (extracted_ids_nodup repeatedIds).2 8 _ _ _ h⟩

end Operation
end TypedClient
