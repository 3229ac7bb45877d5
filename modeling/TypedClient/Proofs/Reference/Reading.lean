/-
  TypedClient.Proofs.Reference.Reading

  Which references lead somewhere.  A path of keys and positions is read from more references than
  are written for it: a text between the `#` and the first slash is passed over, and the digits of
  a position may follow a plus sign and zeros.  That is all: whatever leads to a value is read along
  a path to it, and keeps to the grammar of pointers but for these two liberties.
-/
import TypedClient.Proofs.Reference.Writing

namespace TypedClient.Reference

/-! ## Positions -/

theorem digitValue_lt_ten {c : Char} (h : c.isDigit = true) : c.toNat - '0'.toNat < 10 := by
  have hhigh := (Char.isDigit_iff_toNat.mp h).2
  have hnine : '9'.toNat = '0'.toNat + 9 := rfl
  omega

/-- A digit is written for its value. -/
theorem toDigits_of_isDigit {c : Char} (h : c.isDigit = true) :
    Nat.toDigits 10 (c.toNat - '0'.toNat) = [c] := by
  have hchar : (c.toNat - '0'.toNat).digitChar = c := by
    apply Char.toNat_inj.mp
    rw [Nat.toNat_digitChar_of_lt_ten (digitValue_lt_ten h)]
    have hlow := (Char.isDigit_iff_toNat.mp h).1
    have hzero : '0'.toNat = 48 := rfl
    omega
  rw [Nat.toDigits_of_lt_base (digitValue_lt_ten h), hchar]

/-- Digits are those of their value, after some zeros. -/
theorem exists_zeros_toDigits {digits : List Char} (hne : digits ≠ [])
    (hdigits : digits.all Char.isDigit = true) :
    ∃ zeros, digits =
      List.replicate zeros '0' ++ Nat.toDigits 10 (Nat.ofDigitChars 10 digits 0) := by
  induction digits using List.reverseRecOn with
  | nil => exact absurd rfl hne
  | append_singleton front last ih =>
    rw [List.all_append, Bool.and_eq_true] at hdigits
    obtain ⟨hfront, hlast⟩ := hdigits
    have hlast : last.isDigit = true := by simpa using hlast
    rw [Nat.ofDigitChars_append, Nat.ofDigitChars_cons, Nat.ofDigitChars_nil]
    by_cases hempty : front = []
    · subst hempty
      refine ⟨0, ?_⟩
      rw [Nat.ofDigitChars_nil, Nat.mul_zero, Nat.zero_add, toDigits_of_isDigit hlast]
      rfl
    obtain ⟨zeros, hzeros⟩ := ih hempty hfront
    by_cases hvalue : Nat.ofDigitChars 10 front 0 = 0
    · -- All digits before the last one are zeros then.
      rw [hvalue, Nat.toDigits_zero, ← List.replicate_succ'] at hzeros
      refine ⟨zeros + 1, ?_⟩
      rw [hvalue, Nat.mul_zero, Nat.zero_add, toDigits_of_isDigit hlast, ← hzeros]
    · refine ⟨zeros, ?_⟩
      rw [← Nat.toDigits_append_toDigits (by decide) (Nat.pos_of_ne_zero hvalue)
        (digitValue_lt_ten hlast), toDigits_of_isDigit hlast, ← List.append_assoc, ← hzeros]

/-- The token is read as the step: a key as it is, and a position from its decimal digits, which a
    plus sign and zeros may stand before. -/
def Step.ReadFrom : Step → String → Prop
  | .key name, token => token = name
  | .position index, token => ∃ sign zeros, (sign = "" ∨ sign = "+") ∧
      token = sign ++ String.ofList (List.replicate zeros '0') ++ toString index

/-- Positions are read from just these tokens. -/
theorem position?_eq_some_iff {token : String} {index : Nat} :
    position? token = some index ↔ (Step.position index).ReadFrom token := by
  have htext : ∀ (sign : String) (zeros : Nat),
      token = sign ++ String.ofList (List.replicate zeros '0') ++ toString index ↔
        token.toList = sign.toList ++ (List.replicate zeros '0' ++ Nat.toDigits 10 index) := by
    intro sign zeros
    rw [← String.toList_inj, String.toList_append, String.toList_append,
      Nat.toString_eq_ofList_toDigits, String.toList_ofList, String.toList_ofList,
      List.append_assoc]
  rw [position?_eq_some_iff_digits, Step.ReadFrom]
  constructor
  · rintro ⟨sign, digits, hsign, heq, hne, hdigits, rfl⟩
    obtain ⟨zeros, hzeros⟩ := exists_zeros_toDigits hne hdigits
    refine ⟨String.ofList sign, zeros, ?_, ?_⟩
    · rcases hsign with rfl | rfl
      · exact Or.inl rfl
      · exact Or.inr rfl
    · rw [htext, ← hzeros, String.toList_ofList, heq]
  · rintro ⟨sign, zeros, hsign, heq⟩
    refine ⟨sign.toList, _, ?_, (htext sign zeros).mp heq, ?_, ?_, ?_⟩
    · rcases hsign with rfl | rfl
      · exact Or.inl rfl
      · exact Or.inr rfl
    · exact List.append_ne_nil_of_right_ne_nil _ Nat.toDigits_ne_nil
    · rw [List.all_append, Bool.and_eq_true]
      refine ⟨List.all_replicate.trans (by simp), ?_⟩
      exact List.all_eq_true.mpr fun _ hc =>
        Nat.isDigit_of_mem_toDigits (by decide) (by decide) hc
    · rw [Nat.ofDigitChars_append, Nat.ofDigitChars_replicate_zero, Nat.mul_zero,
        Nat.ofDigitChars_ten_toDigits]

/-! ## Paths -/

variable {document value target : Json} {reference : String}

/-- Tokens lead along the path that they are read as. -/
theorem follow_eq_some_iff {tokens : List String} :
    follow value tokens = some target ↔
      ∃ path, LeadsTo value path target ∧ List.Forall₂ Step.ReadFrom path tokens := by
  induction tokens generalizing value with
  | nil =>
    constructor
    · intro h
      cases h
      exact ⟨[], .here _, .nil⟩
    · rintro ⟨path, hpath, hread⟩
      cases hread
      cases hpath
      rfl
  | cons token rest ih =>
    rw [follow, Option.bind_eq_some_iff]
    constructor
    · rintro ⟨next, hstep, hrest⟩
      obtain ⟨path, hpath, hread⟩ := ih.mp hrest
      cases value with
      | obj fields => exact ⟨_, .key hstep hpath, .cons rfl hread⟩
      | arr items =>
        obtain ⟨index, hindex, hitem⟩ := Option.bind_eq_some_iff.mp hstep
        exact ⟨_, .position hitem hpath, .cons (position?_eq_some_iff.mp hindex) hread⟩
      | _ => cases hstep
    · rintro ⟨path, hpath, hread⟩
      cases hpath with
      | here => cases hread
      | key found hpath =>
        cases hread with
        | cons hfirst hread =>
          cases hfirst
          exact ⟨_, found, ih.mpr ⟨_, hpath, hread⟩⟩
      | position found hpath =>
        cases hread with
        | cons hfirst hread =>
          refine ⟨_, ?_, ih.mpr ⟨_, hpath, hread⟩⟩
          rw [step, position?_eq_some_iff.mpr hfirst, Option.bind_some, found]

/-! ## Segments -/

/-- A text is its first segment, and behind slashes the others. -/
theorem exists_segments (text : List Char) :
    ∃ first others, splitSlashes text = first :: others ∧
      text = first ++ others.flatMap ('/' :: ·) ∧ ∀ segment ∈ first :: others, '/' ∉ segment := by
  induction text with
  | nil => exact ⟨[], [], rfl, rfl, by simp⟩
  | cons c rest ih =>
    obtain ⟨first, others, hsplit, htext, hslash⟩ := ih
    by_cases hc : c = '/'
    · subst hc
      refine ⟨[], first :: others, ?_, ?_, ?_⟩
      · rw [splitSlashes_slash, hsplit]
      · rw [htext]
        rfl
      · rw [List.forall_mem_cons]
        exact ⟨List.not_mem_nil, hslash⟩
    · refine ⟨c :: first, others, ?_, ?_, ?_⟩
      · rw [splitSlashes.eq_3 _ _ hc, hsplit]
      · rw [htext]
        rfl
      · rw [List.forall_mem_cons] at hslash ⊢
        exact ⟨by simpa [Ne.symm hc] using hslash.1, hslash.2⟩

/-- The reference is read as the path after an anchor: `#`, the anchor, and behind slashes the
    segments whose tokens are read as the steps. -/
def ReadAs (anchor : String) (path : List Step) (reference : String) : Prop :=
  '/' ∉ anchor.toList ∧ ∃ segments : List String, (∀ segment ∈ segments, '/' ∉ segment.toList) ∧
    reference = "#" ++ anchor ++ String.join (segments.map ("/" ++ ·)) ∧
    List.Forall₂ Step.ReadFrom path (segments.map fun segment => decodeSegment segment.toList)

theorem toList_anchored (anchor : String) (segments : List String) :
    ("#" ++ anchor ++ String.join (segments.map ("/" ++ ·))).toList =
      '#' :: (anchor.toList ++ segments.flatMap fun segment => '/' :: segment.toList) := by
  have hsegments := toList_segments segments
  rw [String.toList_append] at hsegments
  rw [String.toList_append, String.toList_append, List.append_assoc]
  exact congrArg (fun rest => '#' :: (anchor.toList ++ rest)) (List.cons.inj hsegments).2

/-- An anchor is passed over. -/
theorem tokens_anchored {anchor : String} {segments : List String} (hanchor : '/' ∉ anchor.toList)
    (hsegments : ∀ segment ∈ segments, '/' ∉ segment.toList) :
    tokens ("#" ++ anchor ++ String.join (segments.map ("/" ++ ·))) =
      segments.map fun segment => decodeSegment segment.toList := by
  have hdrop : (splitSlashes (anchor.toList ++ segments.flatMap fun segment =>
      '/' :: segment.toList)).drop 1 = segments.map String.toList := by
    rw [← splitSlashes_flatMap hsegments]
    cases segments with
    | nil =>
      rw [List.flatMap_nil, List.append_nil, splitSlashes_of_not_mem hanchor]
      rfl
    | cons first rest =>
      rw [List.flatMap_cons, List.cons_append, splitSlashes_append hanchor, splitSlashes_slash]
      rfl
  unfold tokens
  rw [toList_anchored]
  show ((splitSlashes (anchor.toList ++ segments.flatMap fun segment =>
    '/' :: segment.toList)).drop 1).map decodeSegment = _
  rw [hdrop, List.map_map]
  rfl

/-- A reference into its own document has an anchor, if only an empty one, before its segments. -/
theorem exists_anchored (h : isInternal reference = true) :
    ∃ (anchor : String) (segments : List String), '/' ∉ anchor.toList ∧
      (∀ segment ∈ segments, '/' ∉ segment.toList) ∧
      reference = "#" ++ anchor ++ String.join (segments.map ("/" ++ ·)) := by
  obtain ⟨text, htext⟩ : ∃ text, reference.toList = '#' :: text := by
    unfold isInternal at h
    cases hchars : reference.toList with
    | nil =>
      rw [hchars] at h
      cases h
    | cons c rest =>
      rw [hchars] at h
      have hc : c = '#' := by simpa using h
      exact ⟨rest, hc ▸ rfl⟩
  obtain ⟨first, others, -, hsegments, hslash⟩ := exists_segments text
  obtain ⟨hfirst, hothers⟩ := List.forall_mem_cons.mp hslash
  refine ⟨String.ofList first, others.map String.ofList, ?_, ?_, ?_⟩
  · rwa [String.toList_ofList]
  · rw [List.forall_mem_map]
    intro segment hsegment
    rw [String.toList_ofList]
    exact hothers segment hsegment
  · rw [← String.toList_inj, toList_anchored, htext, hsegments, String.toList_ofList,
      List.flatMap_map]
    simp only [String.toList_ofList]

/-! ## Pointers -/

/-- The reference is `#` alone, or a slash comes next. -/
def IsPointer (reference : String) : Prop := reference = "#" ∨ ∃ rest, reference = "#/" ++ rest

/-- Every token that steps into an array is a position in decimal digits, without a sign and without
    zeros before them. -/
def CountsPlainly (value : Json) (tokens : List String) : Prop :=
  ∀ before token after items, tokens = before ++ token :: after →
    follow value before = some (.arr items) → ∃ index : Nat, token = toString index

theorem isPointer_iff {anchor : String} {segments : List String} (h : '/' ∉ anchor.toList) :
    IsPointer ("#" ++ anchor ++ String.join (segments.map ("/" ++ ·))) ↔ anchor = "" := by
  unfold IsPointer
  simp only [← String.toList_inj, toList_anchored]
  constructor
  · rintro (heq | ⟨rest, heq⟩)
    · exact (List.append_eq_nil_iff.mp (List.cons.inj heq).2).1
    · rw [String.toList_append] at heq
      have heq : anchor.toList ++ segments.flatMap (fun segment => '/' :: segment.toList) =
          '/' :: rest.toList := (List.cons.inj heq).2
      cases hchars : anchor.toList with
      | nil => rfl
      | cons c chars =>
        rw [hchars] at heq h
        exact absurd ((List.cons.inj heq).1 ▸ List.mem_cons_self ..) h
  · intro hempty
    rw [hempty]
    cases segments with
    | nil => exact Or.inl rfl
    | cons first rest =>
      refine Or.inr ⟨first ++ String.ofList (rest.flatMap fun segment => '/' :: segment.toList), ?_⟩
      rw [String.toList_append, String.toList_append, @String.toList_ofList (rest.flatMap _)]
      rfl

/-- A path in two parts goes through the value that the first part leads to. -/
theorem LeadsTo.of_append {front back : List Step} (h : LeadsTo value (front ++ back) target) :
    ∃ middle, LeadsTo value front middle ∧ LeadsTo middle back target := by
  induction front generalizing value with
  | nil => exact ⟨value, .here value, h⟩
  | cons step front ih =>
    cases h with
    | key found rest =>
      obtain ⟨middle, hfront, hback⟩ := ih rest
      exact ⟨middle, .key found hfront, hback⟩
    | position found rest =>
      obtain ⟨middle, hfront, hback⟩ := ih rest
      exact ⟨middle, .position found hfront, hback⟩

/-- Positions are in plain digits just when the tokens are those of the path. -/
theorem countsPlainly_iff {path : List Step} {tokens : List String}
    (hpath : LeadsTo value path target) (hread : List.Forall₂ Step.ReadFrom path tokens) :
    CountsPlainly value tokens ↔ tokens = path.map Step.token := by
  constructor
  · intro hplain
    induction hpath generalizing tokens with
    | here => exact List.forall₂_nil_left_iff.mp hread
    | @key fields name _ _ path found _ ih =>
      obtain ⟨token, rest, hfirst, hrest, rfl⟩ := List.forall₂_cons_left_iff.mp hread
      have hname : token = name := hfirst
      have hplain : CountsPlainly _ rest := fun before other after items heq hfollow =>
        hplain (token :: before) other after items (heq ▸ rfl) <| by
          rw [follow, step, hname, found]
          exact hfollow
      rw [List.map_cons, ih hrest hplain, hname, Step.token]
    | @position items index _ _ path found _ ih =>
      obtain ⟨token, rest, hfirst, hrest, rfl⟩ := List.forall₂_cons_left_iff.mp hread
      have hindex : position? token = some index := position?_eq_some_iff.mpr hfirst
      have htoken : token = toString index := by
        obtain ⟨other, hother⟩ := hplain [] token rest items rfl rfl
        rw [hother, position?_toString] at hindex
        rw [hother, Option.some.inj hindex]
      have hplain : CountsPlainly _ rest := fun before other after items heq hfollow =>
        hplain (token :: before) other after items (heq ▸ rfl) <| by
          rw [follow, step, hindex, Option.bind_some, found]
          exact hfollow
      rw [List.map_cons, ih hrest hplain, htoken, Step.token]
  · rintro rfl before token after items heq hfollow
    obtain ⟨front, rest, rfl, rfl, hrest⟩ := List.map_eq_append_iff.mp heq
    obtain ⟨step, back, rfl, rfl, -⟩ := List.map_eq_cons_iff.mp hrest
    obtain ⟨middle, hfront, hback⟩ := hpath.of_append
    rw [hfront.follow_eq] at hfollow
    cases hfollow
    cases hback with
    | position found rest => exact ⟨_, rfl⟩

/-- Which references lead to a value, and which of those are pointers.  For every document and every
    reference: it leads to a value just when it is read, after an anchor, as a path to the value, so
    that one without a slash leads to the whole document.  It is a pointer just when the anchor is
    empty, and its positions are in plain digits just when its tokens are those of the path. -/
theorem resolve_eq_some_iff :
    (resolve document reference = some value ↔
      ∃ anchor path, LeadsTo document path value ∧ ReadAs anchor path reference) ∧
    ∀ anchor path, LeadsTo document path value → ReadAs anchor path reference →
      (IsPointer reference ↔ anchor = "") ∧
      (CountsPlainly document (tokens reference) ↔
        tokens reference = path.map Step.token) := by
  refine ⟨⟨fun h => ?_, ?_⟩, ?_⟩
  · unfold resolve at h
    split at h
    · next hinternal =>
      obtain ⟨anchor, segments, hanchor, hsegments, rfl⟩ := exists_anchored hinternal
      obtain ⟨path, hpath, hread⟩ := follow_eq_some_iff.mp h
      rw [tokens_anchored hanchor hsegments] at hread
      exact ⟨anchor, path, hpath, hanchor, segments, hsegments, rfl, hread⟩
    · cases h
  · rintro ⟨anchor, path, hpath, hanchor, segments, hsegments, rfl, hread⟩
    have hinternal : isInternal ("#" ++ anchor ++ String.join (segments.map ("/" ++ ·))) =
        true := by
      unfold isInternal
      rw [toList_anchored]
      rfl
    rw [resolve, if_pos hinternal, tokens_anchored hanchor hsegments]
    exact follow_eq_some_iff.mpr ⟨path, hpath, hread⟩
  · rintro anchor path hpath ⟨hanchor, segments, hsegments, rfl, hread⟩
    rw [← tokens_anchored hanchor hsegments] at hread
    exact ⟨isPointer_iff hanchor, countsPlainly_iff hpath hread⟩

/-- A document that is a list of two texts under a key. -/
def twoTexts : Json := .obj [("list", .arr [.str "a", .str "b"])]

theorem looseReferences_resolve :
    resolve twoTexts "#Pet" = some twoTexts ∧ ¬ IsPointer "#Pet" ∧
      resolve twoTexts "#/list/+01" = some (.str "b") ∧
      ¬ CountsPlainly twoTexts (tokens "#/list/+01") := by
  have hanchor : ReadAs "Pet" [] "#Pet" := ⟨by decide, [], by simp, by decide, .nil⟩
  have hlist : decodeSegment "list".toList = "list" := by decide +kernel
  have hposition : decodeSegment "+01".toList = "+01" := by decide +kernel
  have hloose : ReadAs "" [.key "list", .position 1] "#/list/+01" := by
    have hread : (Step.position 1).ReadFrom "+01" := ⟨"+", 1, Or.inr rfl, by decide⟩
    rw [← hposition] at hread
    exact ⟨by decide, ["list", "+01"], by decide, by decide, .cons hlist (.cons hread .nil)⟩
  have hitem : LeadsTo twoTexts [.key "list", .position 1] (.str "b") :=
    .key rfl (.position rfl (.here _))
  obtain ⟨hwhole, hpointer⟩ :=
    @resolve_eq_some_iff twoTexts twoTexts "#Pet"
  obtain ⟨hresolve, hplain⟩ := @resolve_eq_some_iff twoTexts (.str "b") "#/list/+01"
  refine ⟨hwhole.mpr ⟨_, _, .here _, hanchor⟩, fun h => ?_, hresolve.mpr ⟨_, _, hitem, hloose⟩,
    fun h => ?_⟩
  · exact absurd ((hpointer _ _ (.here _) hanchor).1.mp h) (by decide)
  · have htokens := (hplain _ _ hitem hloose).2.mp h
    exact absurd htokens (by decide +kernel)

end TypedClient.Reference
