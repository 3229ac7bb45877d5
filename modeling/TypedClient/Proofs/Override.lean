/-
  TypedClient.Proofs.Override

  Overriding lists.  The items that are left have distinct keys, in the sequence in which the keys
  first come up, and each of them is the last one with its key.  There is just one such list.
-/
import Mathlib.Data.List.Forall2
import Mathlib.Data.List.Induction
import TypedClient.Override

namespace TypedClient

variable {α κ : Type} [BEq κ] {key : α → κ} {items kept merged : List α} {item other : α}

/-- The second list has one item for each key of the first list, at the place of the first item
    with the key and equal to the last one. -/
structure Overrides (key : α → κ) (items merged : List α) : Prop where
  keys : merged.map key = (items.map key).eraseDups
  last : ∀ item ∈ merged, items.findRev? (key · == key item) = some item

/-- Keys tell what is left, item by item. -/
theorem Overrides.unique (h : Overrides key items merged) (h' : Overrides key items kept) :
    merged = kept := by
  have hkeys : merged.map key = kept.map key := h.keys.trans h'.keys.symm
  have hsame : List.Forall₂ (fun item other => key item = key other) merged kept := by
    rw [← List.forall₂_map_left_iff (R := fun k other => k = key other),
      ← List.forall₂_map_right_iff (R := Eq), hkeys]
    exact List.forall₂_refl _
  rw [← List.forall₂_eq_eq_eq]
  -- Two items with one key are both the last one with it.
  refine List.forall₂_iff_get.mpr ⟨hsame.length_eq, fun i hi hi' => ?_⟩
  have hkey := hsame.get hi hi'
  have hitem := h.last _ (List.get_mem merged ⟨i, hi⟩)
  have hother := h'.last _ (List.get_mem kept ⟨i, hi'⟩)
  rw [hkey] at hitem
  exact Option.some.inj (hitem.symm.trans hother)

/-! ## One more item -/

theorem overrideAll_concat (key : α → κ) (items : List α) (item : α) :
    overrideAll key (items ++ [item]) = override key (overrideAll key items) item := by
  unfold overrideAll
  rw [List.foldl_append]
  rfl

theorem findRev?_concat (p : α → Bool) (items : List α) (item : α) :
    (items ++ [item]).findRev? p = if p item then some item else items.findRev? p := by
  rw [List.findRev?_eq_find?_reverse, List.findRev?_eq_find?_reverse, List.reverse_append,
    List.reverse_singleton, List.singleton_append, List.find?_cons]
  cases p item <;> rfl

variable [LawfulBEq κ]

/-- One more key is left out when it is there before. -/
theorem eraseDups_concat (keys : List κ) (last : κ) :
    (keys ++ [last]).eraseDups =
      if last ∈ keys then keys.eraseDups else keys.eraseDups ++ [last] := by
  rw [List.eraseDups_append]
  by_cases hlast : last ∈ keys
  · have hnone : [last].removeAll keys = [] := by simpa [List.removeAll] using hlast
    rw [if_pos hlast, hnone, List.eraseDups_nil, List.append_nil]
  · have hown : [last].removeAll keys = [last] := by simpa [List.removeAll] using hlast
    rw [if_neg hlast, hown, List.eraseDups_cons]
    rfl

theorem nodup_eraseDups (keys : List κ) : keys.eraseDups.Nodup := by
  induction keys using List.reverseRecOn with
  | nil => exact List.nodup_nil
  | append_singleton keys last ih =>
    rw [eraseDups_concat]
    split
    · exact ih
    · next hlast =>
      refine List.nodup_append.mpr ⟨ih, by simp, ?_⟩
      intro key hkey other hother heq
      have hother : other = last := List.mem_singleton.mp hother
      exact hlast (List.mem_eraseDups.mp (hother ▸ heq ▸ hkey))

/-- The keys that are left are distinct. -/
theorem Overrides.nodup_keys (h : Overrides key items merged) : (merged.map key).Nodup := by
  rw [h.keys]
  exact nodup_eraseDups _

/-- An item whose key is taken leaves the keys as they are; any other one adds its own. -/
theorem map_override :
    (override key kept item).map key =
      if key item ∈ kept.map key then kept.map key else kept.map key ++ [key item] := by
  have htaken : kept.any (key · == key item) = true ↔ key item ∈ kept.map key := by
    rw [List.any_eq_true, List.mem_map]
    simp only [beq_iff_eq]
  unfold override
  by_cases h : key item ∈ kept.map key
  · rw [if_pos (htaken.mpr h), if_pos h, List.map_map]
    refine List.map_congr_left fun other _ => ?_
    show key (if key other == key item then item else other) = key other
    split
    · next heq => exact (beq_iff_eq.mp heq).symm
    · rfl
  · rw [if_neg (fun hany => h (htaken.mp hany)), if_neg h, List.map_append]
    rfl

/-- What is left is the new item, or was left before and has another key. -/
theorem mem_override (h : other ∈ override key kept item) :
    other = item ∨ (other ∈ kept ∧ key other ≠ key item) := by
  unfold override at h
  split at h
  · obtain ⟨old, hold, heq⟩ := List.mem_map.mp h
    split at heq
    · exact Or.inl heq.symm
    · next hkey =>
      rw [← heq]
      exact Or.inr ⟨hold, fun hsame => hkey (beq_iff_eq.mpr hsame)⟩
  · next hfree =>
    rcases List.mem_append.mp h with h | h
    · refine Or.inr ⟨h, fun hsame => hfree ?_⟩
      exact List.any_eq_true.mpr ⟨other, h, beq_iff_eq.mpr hsame⟩
    · exact Or.inl (List.mem_singleton.mp h)

/-- One more item keeps what overriding leaves. -/
theorem Overrides.concat (h : Overrides key items kept) (item : α) :
    Overrides key (items ++ [item]) (override key kept item) where
  keys := by
    have hmem : key item ∈ kept.map key ↔ key item ∈ items.map key := by
      rw [h.keys, List.mem_eraseDups]
    rw [map_override, List.map_append, List.map_singleton, eraseDups_concat, ← h.keys]
    exact if_congr hmem rfl rfl
  last other hother := by
    rw [findRev?_concat]
    rcases mem_override hother with rfl | ⟨hkept, hne⟩
    · rw [if_pos (beq_iff_eq.mpr rfl)]
    · rw [if_neg (by simpa using Ne.symm hne)]
      exact h.last other hkept

/-! ## All items -/

theorem overrides_overrideAll (key : α → κ) (items : List α) :
    Overrides key items (overrideAll key items) := by
  induction items using List.reverseRecOn with
  | nil => exact ⟨by simp [overrideAll], by simp [overrideAll]⟩
  | append_singleton items item ih =>
    rw [overrideAll_concat]
    exact ih.concat item

/-- Only items are left. -/
theorem mem_overrideAll (h : item ∈ overrideAll key items) : item ∈ items := by
  induction items using List.reverseRecOn with
  | nil => cases h
  | append_singleton items last ih =>
    rw [overrideAll_concat] at h
    rcases mem_override h with rfl | ⟨hkept, -⟩
    · exact List.mem_append_right _ (List.mem_singleton.mpr rfl)
    · exact List.mem_append_left _ (ih hkept)

/-- Overriding leaves the one list that there is. -/
theorem overrides_iff : Overrides key items merged ↔ merged = overrideAll key items :=
  ⟨fun h => h.unique (overrides_overrideAll key items),
    fun h => h ▸ overrides_overrideAll key items⟩

/-! ## Items with the same keys -/

section

variable {β κ' : Type} [BEq κ'] [LawfulBEq κ'] {other : β → κ'} {f : α → β}

/-- Only which keys are equal counts for what an item takes the place of. -/
theorem override_map (h : ∀ old ∈ kept, other (f old) = other (f item) ↔ key old = key item) :
    override other (kept.map f) (f item) = (override key kept item).map f := by
  have htaken : ∀ old ∈ kept, (other (f old) == other (f item)) = (key old == key item) :=
    fun old hold => by rw [Bool.eq_iff_iff, beq_iff_eq, beq_iff_eq, h old hold]
  have hany : (kept.map f).any (other · == other (f item)) = kept.any (key · == key item) := by
    rw [List.any_map, Bool.eq_iff_iff, List.any_eq_true, List.any_eq_true]
    exact exists_congr fun old => and_congr_right fun hold => by rw [← htaken old hold]; rfl
  unfold override
  rw [hany]
  split
  · rw [List.map_map, List.map_map]
    refine List.map_congr_left fun old hold => ?_
    show (if other (f old) == other (f item) then f item else f old) = _
    rw [htaken old hold, Function.comp_apply, apply_ite f]
  · rw [List.map_append, List.map_singleton]

theorem overrideAll_map
    (h : ∀ a ∈ items, ∀ b ∈ items, other (f a) = other (f b) ↔ key a = key b) :
    overrideAll other (items.map f) = (overrideAll key items).map f := by
  induction items using List.reverseRecOn with
  | nil => rfl
  | append_singleton items item ih =>
    have hitem : item ∈ items ++ [item] := List.mem_append_right _ (List.mem_singleton.mpr rfl)
    have hbefore : ∀ old ∈ items, old ∈ items ++ [item] := fun _ => List.mem_append_left _
    rw [List.map_append, List.map_singleton, overrideAll_concat, overrideAll_concat,
      ih fun a ha b hb => h a (hbefore a ha) b (hbefore b hb)]
    exact override_map fun old hold => h old (hbefore old (mem_overrideAll hold)) item hitem

end

/-! ## Positions -/

/-- Positions of what overriding leaves, for items that have these keys. -/
def keptPositions (keys : List κ) : List Nat :=
  (overrideAll Prod.fst keys.zipIdx).map Prod.snd

/-- The second list has the items at the positions. -/
def ItemsAt (items : List α) (positions : List Nat) (kept : List α) : Prop :=
  positions.map (items[·]?) = kept.map some

theorem ItemsAt.map {β : Type} {items kept : List α} {positions : List Nat}
    (h : ItemsAt items positions kept) (f : α → β) :
    ItemsAt (items.map f) positions (kept.map f) := by
  have hget : ((items.map f)[·]? : Nat → Option β) = Option.map f ∘ (items[·]?) :=
    funext fun _ => List.getElem?_map
  unfold ItemsAt at *
  rw [hget, ← List.map_map, h, List.map_map, List.map_map]
  rfl

/-- Overriding leaves the items at positions that depend on the keys alone. -/
theorem itemsAt_overrideAll (key : α → κ) (items : List α) :
    ItemsAt items (keptPositions (items.map key)) (overrideAll key items) := by
  -- Both sides are parts of one list, in which each item stands with its position.
  let placed : List (α × Nat) := overrideAll (fun item => key item.1) items.zipIdx
  have hpositions : keptPositions (items.map key) = placed.map Prod.snd := by
    have hkeys : overrideAll Prod.fst (items.zipIdx.map (Prod.map key id)) =
        placed.map (Prod.map key id) := overrideAll_map fun _ _ _ _ => Iff.rfl
    rw [keptPositions, List.zipIdx_map, hkeys, List.map_map]
    rfl
  have hitems : overrideAll key items = placed.map Prod.fst := by
    have hfirst : overrideAll key (items.zipIdx.map Prod.fst) = placed.map Prod.fst :=
      overrideAll_map fun _ _ _ _ => Iff.rfl
    rwa [List.zipIdx_map_fst] at hfirst
  unfold ItemsAt
  rw [hpositions, hitems, List.map_map, List.map_map]
  exact List.map_congr_left fun item hitem =>
    List.mem_zipIdx_iff_getElem?.mp (mem_overrideAll hitem)

/-- Keys that are equal where the other ones are have the same positions. -/
theorem keptPositions_map {κ' : Type} [BEq κ'] [LawfulBEq κ'] {f : κ → κ'}
    (h : Function.Injective f) (keys : List κ) :
    keptPositions (keys.map f) = keptPositions keys := by
  have hkeys : overrideAll Prod.fst (keys.zipIdx.map (Prod.map f id)) =
      (overrideAll Prod.fst keys.zipIdx).map (Prod.map f id) :=
    overrideAll_map fun _ _ _ _ => h.eq_iff
  rw [keptPositions, List.zipIdx_map, hkeys, List.map_map]
  rfl

end TypedClient
