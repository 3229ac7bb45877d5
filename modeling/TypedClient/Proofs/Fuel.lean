/-
  TypedClient.Proofs.Fuel

  Recursions bounded by fuel. The answer of such a recursion is `none` when its fuel runs out, and
  more fuel keeps every answer: one computation refines another when it has the same answer
  wherever the other has one.
-/
import Mathlib.Data.List.Forall2
import Mathlib.Data.List.Induction

namespace TypedClient

variable {α β γ : Type}

/-- `longer` has the answer of `shorter`, if that has one. -/
def Refines (shorter longer : Option α) : Prop := ∀ a, shorter = some a → longer = some a

theorem Refines.refl (x : Option α) : Refines x x := fun _ h => h

theorem Refines.of_none (longer : Option α) : Refines none longer := fun _ h => by cases h

theorem Refines.bind {x y : Option α} {f g : α → Option β} (h : Refines x y)
    (hf : ∀ a, x = some a → Refines (f a) (g a)) : Refines (x >>= f) (y >>= g) := by
  intro b hb
  obtain ⟨a, ha, hfa⟩ := Option.bind_eq_some_iff.mp hb
  exact Option.bind_eq_some_iff.mpr ⟨a, h a ha, hf a ha b hfa⟩

theorem Refines.map {x y : Option α} (h : Refines x y) (f : α → β) :
    Refines (x.map f) (y.map f) := by
  intro b hb
  obtain ⟨a, ha, rfl⟩ := Option.map_eq_some_iff.mp hb
  rw [h a ha]
  rfl

theorem Refines.mapM {f g : α → Option β} (h : ∀ a, Refines (f a) (g a)) (items : List α) :
    Refines (items.mapM f) (items.mapM g) := by
  induction items with
  | nil => exact Refines.refl _
  | cons item rest ih =>
    rw [List.mapM_cons, List.mapM_cons]
    exact (h item).bind fun _ _ => ih.bind fun _ _ => Refines.refl _

/-- Two answers of one recursion agree, whatever the fuel. -/
theorem Refines.unique {run : Nat → Option α}
    (hmono : ∀ fuel more, fuel ≤ more → Refines (run fuel) (run more)) {fuel more : Nat} {a b : α}
    (ha : run fuel = some a) (hb : run more = some b) : a = b := by
  -- Both answers are those of the larger fuel.
  have ha' := hmono fuel (max fuel more) (Nat.le_max_left ..) a ha
  have hb' := hmono more (max fuel more) (Nat.le_max_right ..) b hb
  exact Option.some.inj (ha'.symm.trans hb')

theorem Refines.foldlM {f g : β → α → Option β} (h : ∀ b a, Refines (f b a) (g b a))
    (items : List α) (start : β) : Refines (items.foldlM f start) (items.foldlM g start) := by
  induction items generalizing start with
  | nil => exact Refines.refl _
  | cons item rest ih =>
    rw [List.foldlM_cons, List.foldlM_cons]
    exact (h start item).bind fun next _ => ih next

/-- A computation that keeps its answers for one more unit of fuel keeps them for any amount. -/
theorem Refines.of_succ {run : Nat → Option α} (h : ∀ fuel, Refines (run fuel) (run (fuel + 1)))
    (fuel more : Nat) (hle : fuel ≤ more) : Refines (run fuel) (run more) := by
  induction hle with
  | refl => exact Refines.refl _
  | step _ ih => exact fun a ha => h _ a (ih a ha)

/-! ## Lists of computations -/

/-- A list of computations succeeds when each one does, with their answers in order. -/
theorem mapM_eq_some_iff {f : α → Option β} {items : List α} {answers : List β} :
    items.mapM f = some answers ↔ List.Forall₂ (fun a b => f a = some b) items answers := by
  induction items generalizing answers with
  | nil =>
    rw [List.mapM_nil, List.forall₂_nil_left_iff]
    exact ⟨fun h => (Option.some.inj h).symm, fun h => h ▸ rfl⟩
  | cons item rest ih =>
    rw [List.mapM_cons, List.forall₂_cons_left_iff]
    constructor
    · intro h
      obtain ⟨b, hb, h⟩ := Option.bind_eq_some_iff.mp h
      obtain ⟨bs, hbs, h⟩ := Option.bind_eq_some_iff.mp h
      exact ⟨b, bs, hb, ih.mp hbs, (Option.some.inj h).symm⟩
    · rintro ⟨b, bs, hb, hbs, rfl⟩
      rw [hb, ih.mpr hbs]
      rfl

/-- In two lists related item by item, an item of the second is related to one of the first. -/
theorem exists_of_forall₂_right {R : α → β → Prop} {as : List α} {bs : List β}
    (h : List.Forall₂ R as bs) {b : β} (hb : b ∈ bs) : ∃ a ∈ as, R a b := by
  induction h with
  | nil => cases hb
  | cons hab _ ih =>
    rcases List.mem_cons.mp hb with rfl | hb
    · exact ⟨_, List.mem_cons_self .., hab⟩
    · obtain ⟨a, ha, hab⟩ := ih hb
      exact ⟨a, List.mem_cons_of_mem _ ha, hab⟩

/-- In two lists related item by item, an item of the first is related to one of the second. -/
theorem exists_of_forall₂_left {R : α → β → Prop} {as : List α} {bs : List β}
    (h : List.Forall₂ R as bs) {a : α} (ha : a ∈ as) : ∃ b ∈ bs, R a b :=
  exists_of_forall₂_right (List.Forall₂.flip (R := flip R) h) ha

/-- When each item of a list is done with some fuel, one amount of fuel does them all. -/
theorem exists_fuel_mapM {run : Nat → α → Option β}
    (hmono : ∀ fuel more a, fuel ≤ more → Refines (run fuel a) (run more a)) {items : List α}
    (h : ∀ item ∈ items, ∃ fuel b, run fuel item = some b) :
    ∃ fuel answers, items.mapM (run fuel) = some answers := by
  induction items with
  | nil => exact ⟨0, [], rfl⟩
  | cons item rest ih =>
    obtain ⟨fuel, b, hb⟩ := h item (List.mem_cons_self ..)
    obtain ⟨more, bs, hbs⟩ := ih fun other hother => h other (List.mem_cons_of_mem _ hother)
    refine ⟨max fuel more, b :: bs, ?_⟩
    rw [mapM_eq_some_iff, List.forall₂_cons]
    refine ⟨hmono fuel _ item (Nat.le_max_left ..) b hb, mapM_eq_some_iff.mp ?_⟩
    exact Refines.mapM (fun a => hmono more _ a (Nat.le_max_right ..)) rest bs hbs

/-- A list of computations goes by what each item is computed to. -/
theorem mapM_congr {f g : α → Option β} {items : List α} (h : ∀ item ∈ items, f item = g item) :
    items.mapM f = items.mapM g := by
  induction items with
  | nil => rfl
  | cons item rest ih =>
    rw [List.mapM_cons, List.mapM_cons, h item (List.mem_cons_self ..),
      ih fun other hother => h other (List.mem_cons_of_mem _ hother)]

/-- A function of the answers may be applied to each one, or to their list. -/
theorem mapM_map_answers (f : α → Option β) (g : β → γ) (items : List α) :
    (items.mapM fun item => (f item).map g) = (items.mapM f).map (List.map g) := by
  induction items with
  | nil => rfl
  | cons item rest ih =>
    rw [List.mapM_cons, List.mapM_cons, ih]
    cases f item with
    | none => rfl
    | some b => cases rest.mapM f <;> rfl

/-! ## Folds of computations -/

/-- A fold goes by the step of each item. -/
theorem foldlM_congr {f g : β → α → Option β} {items : List α}
    (h : ∀ item ∈ items, ∀ b, f b item = g b item) (start : β) :
    items.foldlM f start = items.foldlM g start := by
  induction items generalizing start with
  | nil => rfl
  | cons item rest ih =>
    rw [List.foldlM_cons, List.foldlM_cons, h item (List.mem_cons_self ..)]
    congr 1
    funext next
    exact ih (fun other hother => h other (List.mem_cons_of_mem _ hother)) next

/-- What the step of every item of a fold keeps, the whole fold keeps. -/
theorem foldlM_preserves_mem {f : β → α → Option β} {P : β → Prop} {items : List α}
    (hstep : ∀ b, ∀ a ∈ items, ∀ b', f b a = some b' → P b → P b') {start result : β}
    (h : items.foldlM f start = some result) (hstart : P start) : P result := by
  induction items generalizing start with
  | nil =>
    rw [List.foldlM_nil] at h
    exact Option.some.inj h ▸ hstart
  | cons item rest ih =>
    rw [List.foldlM_cons] at h
    obtain ⟨next, hnext, h⟩ := Option.bind_eq_some_iff.mp h
    refine ih (fun b a hmem => hstep b a (List.mem_cons_of_mem _ hmem)) h ?_
    exact hstep start item (List.mem_cons_self ..) next hnext hstart

/-- What every step of a fold keeps, the whole fold keeps. -/
theorem foldlM_preserves {f : β → α → Option β} {P : β → Prop}
    (hstep : ∀ b a b', f b a = some b' → P b → P b') {items : List α} {start result : β}
    (h : items.foldlM f start = some result) (hstart : P start) : P result :=
  foldlM_preserves_mem (fun b a _ => hstep b a) h hstart

/-- The same with what is known when the step of an item is made: the items before it have led to
    where it starts from. -/
theorem foldlM_preserves_split {f : β → α → Option β} {P : β → Prop} {items : List α}
    {start result : β} (hstep : ∀ first item rest b b', items = first ++ item :: rest →
      first.foldlM f start = some b → f b item = some b' → P b → P b')
    (h : items.foldlM f start = some result) (hstart : P start) : P result := by
  induction items using List.reverseRecOn generalizing result with
  | nil =>
    rw [List.foldlM_nil] at h
    exact Option.some.inj h ▸ hstart
  | append_singleton first last ih =>
    rw [List.foldlM_append] at h
    obtain ⟨middle, hmiddle, h⟩ := Option.bind_eq_some_iff.mp h
    rw [List.foldlM_cons] at h
    obtain ⟨next, hlast, h⟩ := Option.bind_eq_some_iff.mp h
    rw [List.foldlM_nil] at h
    have hP : P middle := by
      refine ih ?_ hmiddle
      rintro before item rest b b' rfl hbefore hb
      exact hstep before item (rest ++ [last]) b b' (by simp) hbefore hb
    exact Option.some.inj h ▸ hstep first last [] middle next rfl hmiddle hlast hP

/-- When the step of each item is done with some fuel from wherever the fold may come, one amount of
    fuel does the whole fold. -/
theorem exists_fuel_foldlM {run : Nat → β → α → Option β} {P : β → Prop}
    (hmono : ∀ fuel more b a, fuel ≤ more → Refines (run fuel b a) (run more b a)) {items : List α}
    (hstep : ∀ item ∈ items, ∀ b, P b → ∃ fuel b', run fuel b item = some b' ∧ P b') {start : β}
    (hstart : P start) : ∃ fuel result, items.foldlM (run fuel) start = some result ∧ P result := by
  induction items generalizing start with
  | nil => exact ⟨0, start, rfl, hstart⟩
  | cons item rest ih =>
    obtain ⟨fuel, next, hnext, hP⟩ := hstep item (List.mem_cons_self ..) start hstart
    obtain ⟨more, result, hresult, hlast⟩ :=
      ih (fun other hother => hstep other (List.mem_cons_of_mem _ hother)) hP
    refine ⟨max fuel more, result, ?_, hlast⟩
    rw [List.foldlM_cons]
    refine Option.bind_eq_some_iff.mpr ⟨next, ?_, ?_⟩
    · exact hmono fuel _ start item (Nat.le_max_left ..) next hnext
    · have hlonger := Refines.foldlM (fun b a => hmono more _ b a (Nat.le_max_right fuel more)) rest
      exact hlonger next result hresult

/-- Every item of a fold has its own step, and what comes of that step is related to the result
    when each step relates what it starts from to what comes of it. -/
theorem exists_step_of_foldlM {f : β → α → Option β} {R : β → β → Prop} (hrefl : ∀ b, R b b)
    (htrans : ∀ b b' b'', R b b' → R b' b'' → R b b'')
    (hstep : ∀ b a b', f b a = some b' → R b b') {items : List α} {start result : β}
    (h : items.foldlM f start = some result) {item : α} (hitem : item ∈ items) :
    ∃ before after, f before item = some after ∧ R after result := by
  induction items generalizing start with
  | nil => cases hitem
  | cons first rest ih =>
    rw [List.foldlM_cons] at h
    obtain ⟨next, hnext, hrest⟩ := Option.bind_eq_some_iff.mp h
    rcases List.mem_cons.mp hitem with rfl | hitem
    · exact ⟨start, next, hnext, foldlM_preserves (P := R next)
        (fun b a b' hb hP => htrans next b b' hP (hstep b a b' hb)) hrest (hrefl next)⟩
    · exact ih hrest hitem

end TypedClient
