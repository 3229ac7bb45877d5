/-
  TypedClient.Proofs.Keyed

  Look-ups in key-value lists after an insertion, a union, a removal and a map.  After an insertion
  at the end and after a union the first value under a key wins.  A removal that moves the last pair
  changes the sequence only, which no look-up sees when the keys are distinct.
-/
import TypedClient.Keyed

namespace TypedClient
namespace Keyed

variable {α β : Type}

/-- A key is there just when it has a value. -/
theorem has_eq_isSome (key : String) (pairs : Keyed α) :
    has key pairs = (get? key pairs).isSome := by
  induction pairs with
  | nil => rfl
  | cons pair rest ih =>
    obtain ⟨other, value⟩ := pair
    simp only [has, get?, List.any_cons, List.lookup_cons] at ih ⊢
    rw [ih]
    by_cases h : key = other
    · subst h
      simp
    · rw [beq_false_of_ne h, beq_false_of_ne (Ne.symm h)]
      rfl

/-- A list of one pair has the value under its key only. -/
theorem get?_singleton (key other : String) (value : α) :
    get? other [(key, value)] = if other = key then some value else none := by
  by_cases h : other = key
  · subst h
    simp [get?]
  · rw [if_neg h, get?, List.lookup_cons, beq_false_of_ne h]
    rfl

theorem get?_append (key : String) (first second : Keyed α) :
    get? key (first ++ second) = (get? key first).or (get? key second) :=
  List.lookup_append

/-- What is found under a key is one of the pairs. -/
theorem mem_of_get? {key : String} {value : α} {pairs : Keyed α}
    (h : get? key pairs = some value) : (key, value) ∈ pairs := by
  obtain ⟨before, after, heq, -⟩ := List.lookup_eq_some_iff.mp h
  rw [heq]
  exact List.mem_append_right _ (List.mem_cons_self ..)

/-! ## Insertion in place -/

theorem get?_cons (key other : String) (value : α) (rest : Keyed α) :
    get? key ((other, value) :: rest) = if key = other then some value else get? key rest := by
  by_cases h : key = other
  · subst h
    simp [get?]
  · rw [if_neg h, get?, List.lookup_cons, beq_false_of_ne h]
    rfl

/-- An inserted value is found under its key. -/
theorem get?_insert_self (key : String) (value : α) (pairs : Keyed α) :
    get? key (insert key value pairs) = some value := by
  induction pairs with
  | nil => rw [insert, get?_cons, if_pos rfl]
  | cons pair rest ih =>
    obtain ⟨other, old⟩ := pair
    rw [insert]
    by_cases h : other = key
    · rw [if_pos (beq_iff_eq.mpr h), get?_cons, if_pos rfl]
    · rw [if_neg (by simpa using h), get?_cons, if_neg (Ne.symm h), ih]

/-- An insertion changes nothing under another key. -/
theorem get?_insert_of_ne {key other : String} (pairs : Keyed α) (value : α) (h : other ≠ key) :
    get? other (insert key value pairs) = get? other pairs := by
  induction pairs with
  | nil =>
    rw [insert, get?_cons, if_neg h]
  | cons pair rest ih =>
    obtain ⟨first, old⟩ := pair
    rw [insert]
    by_cases hfirst : first = key
    · rw [if_pos (beq_iff_eq.mpr hfirst), get?_cons, get?_cons, if_neg h, hfirst, if_neg h]
    · rw [if_neg (by simpa using hfirst), get?_cons, get?_cons, ih]

/-- Putting under a key what is there already changes nothing. -/
theorem insert_of_get? {key : String} {value : α} {pairs : Keyed α}
    (h : get? key pairs = some value) : insert key value pairs = pairs := by
  induction pairs with
  | nil => cases h
  | cons pair rest ih =>
    obtain ⟨other, found⟩ := pair
    rw [get?_cons] at h
    rw [insert]
    by_cases heq : key = other
    · subst heq
      rw [if_pos rfl] at h
      rw [if_pos (beq_self_eq_true key), Option.some.inj h]
    · rw [if_neg heq] at h
      rw [if_neg (by simpa using Ne.symm heq), ih h]

theorem isEmpty_insert (key : String) (value : α) (pairs : Keyed α) :
    (insert key value pairs).isEmpty = false := by
  cases pairs with
  | nil => rfl
  | cons pair rest =>
    rw [insert]
    split <;> rfl

/-- A pair of the list after an insertion was there before, or is the one inserted. -/
theorem mem_insert {key : String} {value : α} {pairs : Keyed α} {pair : String × α}
    (h : pair ∈ insert key value pairs) : pair ∈ pairs ∨ pair = (key, value) := by
  induction pairs with
  | nil => exact Or.inr (List.mem_singleton.mp h)
  | cons first rest ih =>
    rw [insert] at h
    split at h
    · rcases List.mem_cons.mp h with h | h
      · exact Or.inr h
      · exact Or.inl (List.mem_cons_of_mem _ h)
    · rcases List.mem_cons.mp h with h | h
      · exact Or.inl (List.mem_cons.mpr (Or.inl h))
      · exact (ih h).imp_left (List.mem_cons_of_mem _)

/-- An insertion adds its key to the keys. -/
theorem mem_keys_insert {key other : String} {value : α} {pairs : Keyed α} :
    other ∈ keys (insert key value pairs) ↔ other ∈ keys pairs ∨ other = key := by
  induction pairs with
  | nil => simp [insert, keys]
  | cons first rest ih =>
    rw [insert]
    split
    · next heq =>
      have heq : first.1 = key := beq_iff_eq.mp heq
      rw [keys, keys, List.map_cons, List.map_cons, List.mem_cons, List.mem_cons, heq]
      constructor
      · exact Or.inl
      · rintro (hmem | rfl)
        · exact hmem
        · exact Or.inl rfl
    · simp only [keys, List.map_cons, List.mem_cons] at ih ⊢
      rw [ih, or_assoc]

/-- Distinct keys stay distinct. -/
theorem nodup_keys_insert {key : String} {value : α} {pairs : Keyed α}
    (h : (keys pairs).Nodup) : (keys (insert key value pairs)).Nodup := by
  induction pairs with
  | nil => simp [insert, keys]
  | cons first rest ih =>
    rw [keys, List.map_cons, List.nodup_cons] at h
    rw [insert]
    split
    · next heq =>
      rw [keys, List.map_cons, List.nodup_cons]
      exact ⟨beq_iff_eq.mp heq ▸ h.1, h.2⟩
    · next hne =>
      rw [keys, List.map_cons, List.nodup_cons]
      refine ⟨fun hmem => ?_, ih h.2⟩
      obtain ⟨pair, hpair, heq⟩ := List.mem_map.mp hmem
      rcases mem_insert hpair with hpair | rfl
      · exact h.1 (List.mem_map.mpr ⟨pair, hpair, heq⟩)
      · exact hne (beq_iff_eq.mpr heq.symm)

/-- A value under a key that is there changes no keys. -/
theorem keys_insert_of_mem {key : String} {pairs : Keyed α} (value : α) (h : key ∈ keys pairs) :
    keys (insert key value pairs) = keys pairs := by
  induction pairs with
  | nil => cases h
  | cons first rest ih =>
    rw [insert]
    split
    · next heq => rw [keys, keys, List.map_cons, List.map_cons, beq_iff_eq.mp heq]
    · next hne =>
      have hrest : key ∈ keys rest :=
        (List.mem_cons.mp h).resolve_left fun heq => hne (beq_iff_eq.mpr heq.symm)
      have hkeys : (insert key value rest).map (·.1) = rest.map (·.1) := ih hrest
      rw [keys, keys, List.map_cons, List.map_cons, hkeys]

/-! ## Insertion at the end -/

/-- A new value is found under its key when the key was free; nothing else changes. -/
theorem get?_insertNew (key : String) (value : α) (pairs : Keyed α) (other : String) :
    get? other (insertNew key value pairs) =
      (get? other pairs).or (if other = key then some value else none) := by
  rw [insertNew]
  by_cases hhas : has key pairs = true
  · rw [if_pos hhas]
    by_cases hkey : other = key
    · subst hkey
      rw [has_eq_isSome] at hhas
      obtain ⟨old, hold⟩ := Option.isSome_iff_exists.mp hhas
      rw [hold]
      rfl
    · rw [if_neg hkey, Option.or_none]
  · rw [if_neg hhas, get?_append, get?_singleton]

/-- The list before an insertion at the end is a prefix of the list after it. -/
theorem prefix_insertNew (key : String) (value : α) (pairs : Keyed α) :
    pairs <+: insertNew key value pairs := by
  rw [insertNew]
  split
  · exact List.prefix_rfl
  · exact List.prefix_append ..

/-- A pair of the list after an insertion was there before, or is the one inserted. -/
theorem mem_insertNew {key : String} {value : α} {pairs : Keyed α} {pair : String × α}
    (h : pair ∈ insertNew key value pairs) : pair ∈ pairs ∨ pair = (key, value) := by
  rw [insertNew] at h
  split at h
  · exact Or.inl h
  · rcases List.mem_append.mp h with h | h
    · exact Or.inl h
    · exact Or.inr (List.mem_singleton.mp h)

/-- A list has a value under each of its keys only. -/
theorem has_iff_mem_keys (key : String) (pairs : Keyed α) :
    has key pairs = true ↔ key ∈ keys pairs := by
  simp [has, keys]

/-- There is no value under a key just when it is none of the keys. -/
theorem get?_eq_none_iff {key : String} {pairs : Keyed α} :
    get? key pairs = none ↔ key ∉ keys pairs := by
  rw [← has_iff_mem_keys, has_eq_isSome, Bool.not_eq_true, Option.isSome_eq_false_iff,
    Option.isNone_iff_eq_none]

theorem nodup_keys_insertNew {key : String} {value : α} {pairs : Keyed α}
    (h : (keys pairs).Nodup) : (keys (insertNew key value pairs)).Nodup := by
  rw [insertNew]
  split
  · exact h
  · next hfree =>
    have hkey : key ∉ keys pairs := fun hmem => hfree ((has_iff_mem_keys key pairs).mpr hmem)
    rw [keys, List.map_append, List.nodup_append]
    refine ⟨h, by simp, ?_⟩
    intro other hother last hlast heq
    have hlast : last = key := by simpa using hlast
    exact hkey (hlast ▸ heq ▸ hother)

/-- What is found in a prefix is found in the whole list. -/
theorem get?_of_prefix {first second : Keyed α} (h : first <+: second) {key : String} {value : α}
    (hget : get? key first = some value) : get? key second = some value := by
  obtain ⟨rest, rfl⟩ := h
  rw [get?_append, hget]
  rfl

/-! ## Union -/

/-- Under each key a union has the value of the first list, or else that of the second. -/
theorem get?_union (key : String) (first second : Keyed α) :
    get? key (union first second) = (get? key first).or (get? key second) := by
  unfold union
  induction second generalizing first with
  | nil => simp [get?]
  | cons pair rest ih =>
    obtain ⟨other, value⟩ := pair
    rw [List.foldl_cons, ih, get?_insertNew, Option.or_assoc, ← get?_singleton, ← get?_append]
    rfl

/-- The keys of a union are distinct when those of the first list are. -/
theorem nodup_keys_union {first : Keyed α} (h : (keys first).Nodup) (second : Keyed α) :
    (keys (union first second)).Nodup := by
  unfold union
  induction second generalizing first with
  | nil => exact h
  | cons pair rest ih => exact ih (nodup_keys_insertNew h)

/-- A union with two lists in a row is a union with one after the other. -/
theorem union_append (start first second : Keyed α) :
    union start (first ++ second) = union (union start first) second :=
  List.foldl_append

/-- A pair that is new to a union is put at its end, whether it was new to the second list or not. -/
theorem union_insertNew (start pairs : Keyed α) (key : String) (value : α) :
    union start (insertNew key value pairs) = insertNew key value (union start pairs) := by
  unfold insertNew
  by_cases hhas : has key pairs = true
  · -- What the second list has, the union has.
    have hunion : has key (union start pairs) = true := by
      rw [has_eq_isSome] at hhas ⊢
      rw [get?_union, Option.isSome_or, hhas, Bool.or_true]
    rw [if_pos hhas, if_pos hunion]
  · rw [if_neg hhas, union_append]
    rfl

theorem union_union (start first second : Keyed α) :
    union start (union first second) = union (union start first) second := by
  induction second generalizing first with
  | nil => rfl
  | cons pair rest ih =>
    calc union start (union (insertNew pair.1 pair.2 first) rest)
        = union (union start (insertNew pair.1 pair.2 first)) rest := ih _
      _ = union (insertNew pair.1 pair.2 (union start first)) rest := by rw [union_insertNew]

/-- A union of lists that have all keys distinct is one list after the other. -/
theorem union_of_nodup {start pairs : Keyed α} (h : (keys (start ++ pairs)).Nodup) :
    union start pairs = start ++ pairs := by
  induction pairs generalizing start with
  | nil => exact (List.append_nil start).symm
  | cons pair rest ih =>
    rw [List.append_cons] at h ⊢
    have hfree : has pair.1 start = false := by
      rw [← Bool.not_eq_true, has_iff_mem_keys]
      intro hmem
      rw [keys, List.map_append, List.map_append, List.nodup_append, List.nodup_append] at h
      exact h.1.2.2 pair.1 hmem pair.1 (by simp) rfl
    show union (insertNew pair.1 pair.2 start) rest = _
    rw [insertNew, hfree, if_neg Bool.false_ne_true]
    exact ih h

/-! ## Distinct keys -/

/-- With distinct keys a pair is found under its key. -/
theorem get?_of_mem {key : String} {value : α} {pairs : Keyed α} (h : (keys pairs).Nodup)
    (hmem : (key, value) ∈ pairs) : get? key pairs = some value := by
  induction pairs with
  | nil => cases hmem
  | cons pair rest ih =>
    obtain ⟨other, old⟩ := pair
    rw [keys, List.map_cons, List.nodup_cons] at h
    rw [get?_cons]
    rcases List.mem_cons.mp hmem with heq | hmem
    · cases heq
      rw [if_pos rfl]
    · have hne : key ≠ other := fun heq => h.1 (List.mem_map.mpr ⟨_, hmem, heq⟩)
      rw [if_neg hne, ih h.2 hmem]

/-- The sequence of the pairs does not count when the keys are distinct. -/
theorem get?_perm {first second : Keyed α} (h : first.Perm second) (hnodup : (keys first).Nodup)
    (key : String) : get? key first = get? key second := by
  have hnodup' : (keys second).Nodup := (h.map _).nodup_iff.mp hnodup
  cases hfirst : get? key first with
  | some value => exact (get?_of_mem hnodup' (h.mem_iff.mp (mem_of_get? hfirst))).symm
  | none =>
    cases hsecond : get? key second with
    | none => rfl
    | some value =>
      rw [get?_of_mem hnodup (h.mem_iff.mpr (mem_of_get? hsecond))] at hfirst
      cases hfirst

/-! ## Removal -/

theorem get?_erase_of_ne {key other : String} (pairs : Keyed α) (h : other ≠ key) :
    get? other (erase key pairs) = get? other pairs := by
  induction pairs with
  | nil => rfl
  | cons pair rest ih =>
    obtain ⟨first, value⟩ := pair
    rw [erase, List.filter_cons] at *
    by_cases hfirst : first = key
    · subst hfirst
      rw [if_neg (by simp), get?_cons, if_neg h]
      exact ih
    · rw [if_pos (by simpa using hfirst), get?_cons, get?_cons]
      exact congrArg _ ih

/-- Removing a key leaves the other keys. -/
theorem mem_keys_erase {key other : String} {pairs : Keyed α} :
    other ∈ keys (erase key pairs) ↔ other ∈ keys pairs ∧ other ≠ key := by
  simp only [keys, erase, List.mem_map, List.mem_filter, bne_iff_ne]
  constructor
  · rintro ⟨pair, ⟨hpair, hne⟩, rfl⟩
    exact ⟨⟨pair, hpair, rfl⟩, hne⟩
  · rintro ⟨⟨pair, hpair, rfl⟩, hne⟩
    exact ⟨pair, ⟨hpair, hne⟩, rfl⟩

/-- A key that is not there needs no removal. -/
theorem erase_of_not_mem {key : String} {pairs : Keyed α} (h : key ∉ keys pairs) :
    erase key pairs = pairs := by
  refine List.filter_eq_self.mpr fun pair hpair => ?_
  have hne : pair.1 ≠ key := fun heq => h (heq ▸ List.mem_map_of_mem hpair)
  simpa using hne

theorem nodup_keys_erase {key : String} {pairs : Keyed α} (h : (keys pairs).Nodup) :
    (keys (erase key pairs)).Nodup :=
  h.sublist (List.filter_sublist.map _)

/-- A pair put in the place of another one is there once, and the other one is gone. -/
theorem replace_perm {key : String} {pairs : Keyed α} (pair : String × α)
    (h : (keys pairs).Nodup) (hmem : key ∈ keys pairs) :
    (replace key pair pairs).Perm (pair :: erase key pairs) := by
  induction pairs with
  | nil => cases hmem
  | cons first rest ih =>
    rw [keys, List.map_cons, List.nodup_cons] at h
    rw [replace]
    by_cases hfirst : first.1 = key
    · have hrest : erase key (first :: rest) = rest := by
        rw [erase, List.filter_cons, if_neg (by simpa using hfirst)]
        exact erase_of_not_mem (hfirst ▸ h.1)
      rw [if_pos (beq_iff_eq.mpr hfirst), hrest]
    · have hrest : erase key (first :: rest) = first :: erase key rest := by
        rw [erase, List.filter_cons, if_pos (by simpa using hfirst)]
        rfl
      have hmem : key ∈ keys rest := (List.mem_cons.mp hmem).resolve_left (Ne.symm hfirst)
      rw [if_neg (by simpa using hfirst), hrest]
      exact ((ih h.2 hmem).cons first).trans (List.Perm.swap ..)

/-- Removing a key with the last pair moved into its place is removing it, but for the sequence. -/
theorem swapErase_perm {key : String} {pairs : Keyed α} (h : (keys pairs).Nodup) :
    (swapErase key pairs).Perm (erase key pairs) := by
  unfold swapErase
  split
  · next hnone =>
    rw [List.getLast?_eq_none_iff.mp hnone]
    exact .nil
  · next last hlast =>
    obtain ⟨init, rfl⟩ := List.getLast?_eq_some_iff.mp hlast
    rw [List.dropLast_concat]
    have hinit : (keys init).Nodup := h.sublist ((List.sublist_append_left ..).map _)
    have herase : erase key (init ++ [last]) = erase key init ++ erase key [last] :=
      List.filter_append ..
    by_cases hkey : last.1 = key
    · have hfree : key ∉ keys init := by
        rw [keys, List.map_append] at h
        exact fun hmem => (List.nodup_append.mp h).2.2 key hmem last.1 (by simp) hkey.symm
      rw [if_pos (beq_iff_eq.mpr hkey), herase, erase_of_not_mem hfree, erase,
        List.filter_cons, if_neg (by simpa using hkey)]
      simp
    · have hlast : erase key [last] = [last] := by
        rw [erase, List.filter_cons, if_pos (by simpa using hkey)]
        rfl
      rw [if_neg (by simpa using hkey), herase, hlast]
      by_cases hhas : key ∈ keys init
      · have : has key (init ++ [last]) = true := by
          rw [has_iff_mem_keys, keys, List.map_append]
          exact List.mem_append_left _ hhas
        rw [if_pos this]
        exact (replace_perm last hinit hhas).trans (List.perm_append_singleton ..).symm
      · have hfree : ¬ has key (init ++ [last]) = true := by
          rw [has_iff_mem_keys, keys, List.map_append, List.mem_append]
          rintro (hmem | hmem)
          · exact hhas hmem
          · exact hkey (List.mem_singleton.mp hmem).symm
        rw [if_neg hfree, erase_of_not_mem hhas]

theorem get?_swapErase_of_ne {key other : String} {pairs : Keyed α} (h : (keys pairs).Nodup)
    (hne : other ≠ key) : get? other (swapErase key pairs) = get? other pairs := by
  have hperm : (swapErase key pairs).Perm (erase key pairs) := swapErase_perm h
  have hnodup := (hperm.map Prod.fst).nodup_iff.mpr (nodup_keys_erase h)
  rw [get?_perm hperm hnodup, get?_erase_of_ne pairs hne]

theorem nodup_keys_swapErase {key : String} {pairs : Keyed α} (h : (keys pairs).Nodup) :
    (keys (swapErase key pairs)).Nodup :=
  ((swapErase_perm h).map Prod.fst).nodup_iff.mpr (nodup_keys_erase h)

/-- A key that has been removed is gone. -/
theorem get?_swapErase_self (key : String) {pairs : Keyed α} (h : (keys pairs).Nodup) :
    get? key (swapErase key pairs) = none := by
  cases hget : get? key (swapErase key pairs) with
  | none => rfl
  | some value =>
    have hmem := (swapErase_perm h).mem_iff.mp (mem_of_get? hget)
    have hne := (mem_keys_erase.mp (List.mem_map_of_mem hmem)).2
    exact absurd rfl hne

/-- Removing some keys, one after the other, changes nothing under any other key. -/
theorem get?_removeAll {pairs : Keyed α} (h : (keys pairs).Nodup) (removed : List String)
    {key : String} (hkey : key ∉ removed) :
    get? key (removed.foldl (fun pairs key => swapErase key pairs) pairs) = get? key pairs := by
  induction removed generalizing pairs with
  | nil => rfl
  | cons first rest ih =>
    have hne : key ≠ first := fun heq => hkey (heq ▸ List.mem_cons_self ..)
    have hrest : key ∉ rest := fun hmem => hkey (List.mem_cons_of_mem _ hmem)
    rw [List.foldl_cons, ih (nodup_keys_swapErase h) hrest, get?_swapErase_of_ne h hne]

theorem nodup_keys_removeAll {pairs : Keyed α} (h : (keys pairs).Nodup) (removed : List String) :
    (keys (removed.foldl (fun pairs key => swapErase key pairs) pairs)).Nodup := by
  induction removed generalizing pairs with
  | nil => exact h
  | cons first rest ih => exact ih (nodup_keys_swapErase h)

/-! ## Pairs in order -/

theorem insert_of_not_mem {key : String} {pairs : Keyed α} (value : α) (h : key ∉ keys pairs) :
    insert key value pairs = pairs ++ [(key, value)] := by
  induction pairs with
  | nil => rfl
  | cons pair rest ih =>
    have hpair : pair.1 ≠ key := fun heq => h (heq ▸ List.mem_cons_self ..)
    have hrest : key ∉ keys rest := fun hmem => h (List.mem_cons_of_mem _ hmem)
    rw [insert, if_neg (by simpa using hpair), ih hrest]
    rfl

/-- Pairs with distinct keys are put together as they are. -/
theorem ofList_of_nodup {pairs : Keyed α} (h : (keys pairs).Nodup) : ofList pairs = pairs := by
  have hfold : ∀ before : Keyed α, (keys (before ++ pairs)).Nodup →
      pairs.foldl (fun acc pair => acc.insert pair.1 pair.2) before = before ++ pairs := by
    clear h
    induction pairs with
    | nil => exact fun before _ => (List.append_nil before).symm
    | cons pair rest ih =>
      intro before h
      have hpair : pair.1 ∉ keys before := by
        rw [keys, List.map_append] at h
        exact fun hmem =>
          (List.nodup_append.mp h).2.2 pair.1 hmem pair.1 (List.mem_cons_self ..) rfl
      have hsplit : before ++ pair :: rest = (before ++ [pair]) ++ rest := by simp
      rw [hsplit] at h ⊢
      rw [List.foldl_cons, insert_of_not_mem pair.2 hpair]
      exact ih _ h
  exact hfold [] h

/-- Of the pairs with one key the last one counts. -/
theorem get?_ofList (key : String) (pairs : List (String × α)) :
    get? key (ofList pairs) = get? key pairs.reverse := by
  have hfold : ∀ before : Keyed α,
      get? key (pairs.foldl (fun acc pair => acc.insert pair.1 pair.2) before) =
        (get? key pairs.reverse).or (get? key before) := by
    induction pairs with
    | nil => exact fun _ => rfl
    | cons pair rest ih =>
      intro before
      rw [List.foldl_cons, ih, List.reverse_cons, get?_append, get?_singleton, Option.or_assoc]
      by_cases h : key = pair.1
      · rw [if_pos h, h, get?_insert_self]
        rfl
      · rw [if_neg h, get?_insert_of_ne _ _ h]
        rfl
  rw [ofList, hfold]
  exact Option.or_none

/-! ## Values mapped -/

theorem get?_mapValues (f : α → β) (key : String) (pairs : Keyed α) :
    get? key (mapValues f pairs) = (get? key pairs).map f := by
  induction pairs with
  | nil => rfl
  | cons pair rest ih =>
    obtain ⟨other, value⟩ := pair
    rw [mapValues, List.map_cons, get?_cons, get?_cons]
    split
    · rfl
    · exact ih

theorem keys_mapValues (f : α → β) (pairs : Keyed α) : keys (mapValues f pairs) = keys pairs := by
  rw [keys, keys, mapValues, List.map_map]
  rfl

/-- What is found and is kept is found among what is kept. -/
theorem get?_filter {keep : String × α → Bool} {key : String} {value : α} {pairs : Keyed α}
    (h : get? key pairs = some value) (hkeep : keep (key, value) = true) :
    get? key (pairs.filter keep) = some value := by
  induction pairs with
  | nil => cases h
  | cons pair rest ih =>
    obtain ⟨other, first⟩ := pair
    rw [get?_cons] at h
    rw [List.filter_cons]
    split at h
    · next heq =>
      cases h
      rw [← heq, if_pos hkeep, get?_cons, if_pos rfl]
    · next hne =>
      split
      · rw [get?_cons, if_neg hne]
        exact ih h
      · exact ih h

end Keyed
end TypedClient
