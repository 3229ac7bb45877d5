/-
  TypedClient.Proofs.Reference.Tokens

  Segments of a pointer.  Text without a slash is one segment, and a segment ends at the next
  slash.
-/
import TypedClient.Reference

namespace TypedClient.Reference

theorem splitSlashes_slash (rest : List Char) :
    splitSlashes ('/' :: rest) = [] :: splitSlashes rest := rfl

/-- A segment without a slash ends at the next slash. -/
theorem splitSlashes_append {segment : List Char} (h : '/' ∉ segment) (rest : List Char) :
    splitSlashes (segment ++ '/' :: rest) = segment :: splitSlashes rest := by
  induction segment with
  | nil => rfl
  | cons c segment ih =>
    have hc : c ≠ '/' := fun heq => h (heq ▸ List.mem_cons_self ..)
    have hsegment : '/' ∉ segment := fun hmem => h (List.mem_cons_of_mem _ hmem)
    rw [List.cons_append, splitSlashes.eq_3 _ _ hc, ih hsegment]

/-- A text without a slash is a single segment. -/
theorem splitSlashes_of_not_mem {segment : List Char} (h : '/' ∉ segment) :
    splitSlashes segment = [segment] := by
  induction segment with
  | nil => rfl
  | cons c segment ih =>
    have hc : c ≠ '/' := fun heq => h (heq ▸ List.mem_cons_self ..)
    have hsegment : '/' ∉ segment := fun hmem => h (List.mem_cons_of_mem _ hmem)
    rw [splitSlashes.eq_3 _ _ hc, ih hsegment]

/-- Segments behind slashes are split again. -/
theorem splitSlashes_flatMap {segments : List String}
    (h : ∀ segment ∈ segments, '/' ∉ segment.toList) :
    (splitSlashes (segments.flatMap fun segment => '/' :: segment.toList)).drop 1 =
      segments.map String.toList := by
  induction segments with
  | nil => rfl
  | cons segment rest ih =>
    obtain ⟨hsegment, hrest⟩ := List.forall_mem_cons.mp h
    have hfirst : splitSlashes (segment.toList ++
        rest.flatMap fun segment => '/' :: segment.toList) = segment.toList ::
          (splitSlashes (rest.flatMap fun segment => '/' :: segment.toList)).drop 1 := by
      cases rest with
      | nil =>
        rw [List.flatMap_nil, List.append_nil, splitSlashes_of_not_mem hsegment]
        rfl
      | cons second rest =>
        rw [List.flatMap_cons, List.cons_append, splitSlashes_append hsegment,
          splitSlashes_slash, List.drop_one, List.tail_cons]
    rw [List.flatMap_cons, List.cons_append, splitSlashes_slash, List.drop_one, List.tail_cons,
      hfirst, ih hrest, List.map_cons]

end TypedClient.Reference
