/-
  TypedClient.Proofs.Reference.Writing

  References that are written for a path lead back along it.  A writer has a choice: of the bytes
  of a segment it writes any it likes with percent signs, and has to write the percent signs so.
  Reading undoes this before it undoes the two escapes of a pointer, so that the tokens come out
  as they were whatever has been chosen, and the pointer leads to the value of the path.
-/
import TypedClient.Proofs.Fuel
import TypedClient.Proofs.Reference.Tokens
import TypedClient.Proofs.Text.Identifier
import TypedClient.Proofs.Text.Percent

namespace TypedClient.Reference

/-! ## Tokens -/

/-- Reading undoes the escapes of a token. -/
theorem unescapeToken_escapeToken (token : List Char) :
    unescapeToken (escapeToken token) = token := by
  induction token with
  | nil => rfl
  | cons c rest ih =>
    unfold escapeToken
    split
    · next htilde => rw [unescapeToken, ih, htilde]
    split
    · next hslash => rw [unescapeToken, ih, hslash]
    · next htilde hslash =>
      rw [unescapeToken.eq_3 _ _ (fun _ heq => absurd heq htilde)
        (fun _ heq => absurd heq htilde), ih]

/-- An escaped token has no slash. -/
theorem slash_not_mem_escapeToken (token : List Char) : '/' ∉ escapeToken token := by
  induction token with
  | nil => exact List.not_mem_nil
  | cons c rest ih =>
    unfold escapeToken
    split
    · simp [ih]
    split
    · simp [ih]
    · next hslash => simp [ih, Ne.symm hslash]

/-- The segment spells the token: in what it spells, a tilde is `~0` and a slash is `~1`. -/
def SpellsToken (token segment : String) : Prop :=
  Text.Spells (String.ofList (escapeToken token.toList)) segment

theorem SpellsToken.decodeSegment_eq {token segment : String} (h : SpellsToken token segment) :
    decodeSegment segment.toList = token := by
  unfold decodeSegment
  rw [String.ofList_toList, h.percentDecode_eq, String.toList_ofList, unescapeToken_escapeToken,
    String.ofList_toList]

theorem SpellsToken.slash_not_mem {token segment : String} (h : SpellsToken token segment) :
    '/' ∉ segment.toList :=
  Text.Spells.slash_not_mem h <| by
    rw [String.toList_ofList]
    exact slash_not_mem_escapeToken token.toList

/-- The reference is written for the tokens: `#`, and for each of them a slash and a segment that
    spells it. -/
def WrittenFor (path : List String) (reference : String) : Prop :=
  ∃ segments, List.Forall₂ SpellsToken path segments ∧
    reference = "#" ++ String.join (segments.map ("/" ++ ·))

theorem toList_segments (segments : List String) :
    ("#" ++ String.join (segments.map ("/" ++ ·))).toList =
      '#' :: segments.flatMap fun segment => '/' :: segment.toList := by
  have hsegment : ∀ segment : String, ("/" ++ segment).toList = '/' :: segment.toList :=
    fun _ => String.toList_append
  rw [String.toList_append, String.toList_join, List.flatMap_map]
  simp only [hsegment]
  rfl

/-- The tokens of a reference are those that it is written for. -/
theorem WrittenFor.tokens_eq {path : List String} {reference : String}
    (h : WrittenFor path reference) : tokens reference = path := by
  obtain ⟨segments, hspells, rfl⟩ := h
  have hslash : ∀ segment ∈ segments, '/' ∉ segment.toList := fun segment hsegment => by
    obtain ⟨token, -, htoken⟩ := exists_of_forall₂_right hspells hsegment
    exact htoken.slash_not_mem
  have hdecode : segments.map (fun segment => decodeSegment segment.toList) = path := by
    rw [← List.forall₂_eq_eq_eq, List.forall₂_map_left_iff]
    exact hspells.flip.imp fun _ _ htoken => SpellsToken.decodeSegment_eq htoken
  unfold tokens
  rw [toList_segments]
  show ((splitSlashes (segments.flatMap fun segment => '/' :: segment.toList)).drop 1).map
    decodeSegment = path
  rw [splitSlashes_flatMap hslash, List.map_map]
  exact hdecode

/-- Every path has references that are written for it, whichever characters are picked besides the
    percent sign. -/
theorem writtenFor_ofTokens {escape : Char → Bool} (hescape : escape '%' = true)
    (path : List String) : WrittenFor path (ofTokens escape path) := by
  refine ⟨path.map (encodeToken escape), ?_, ?_⟩
  · rw [List.forall₂_map_right_iff, List.forall₂_same]
    exact fun token _ => Text.spells_percentEncode hescape _
  · rw [List.map_map]
    rfl

/-! ## Paths -/

/-- A step of a path: to a field of an object, or to an item of an array. -/
inductive Step where
  | key (name : String)
  | position (index : Nat)
  deriving DecidableEq, Repr

/-- The token of a step: the key as it is, the position in decimal digits. -/
def Step.token : Step → String
  | key name => name
  | position index => toString index

/-- The path leads from one value to the other. -/
inductive LeadsTo : Json → List Step → Json → Prop
  | here (value : Json) : LeadsTo value [] value
  | key {fields : Keyed Json} {name : String} {inner target : Json} {path : List Step}
      (found : Keyed.get? name fields = some inner) (rest : LeadsTo inner path target) :
      LeadsTo (.obj fields) (.key name :: path) target
  | position {items : List Json} {index : Nat} {inner target : Json} {path : List Step}
      (found : items[index]? = some inner) (rest : LeadsTo inner path target) :
      LeadsTo (.arr items) (.position index :: path) target

/-- A position is the value of digits, with or without a plus sign before them. -/
theorem position?_eq_some_iff_digits {token : String} {index : Nat} :
    position? token = some index ↔ ∃ sign digits, (sign = [] ∨ sign = ['+']) ∧
      token.toList = sign ++ digits ∧ digits ≠ [] ∧ digits.all Char.isDigit = true ∧
      Nat.ofDigitChars 10 digits 0 = index := by
  have hfold : ∀ digits : List Char, digits.foldl
      (fun value c => value * 10 + (c.toNat - 48)) 0 = Nat.ofDigitChars 10 digits 0 := by
    intro digits
    rw [Nat.ofDigitChars_eq_foldl]
    simp only [Nat.mul_comm]
    rfl
  have hread : ∀ digits : List Char,
      (if digits.isEmpty || !digits.all Char.isDigit then none
        else some (digits.foldl (fun value c => value * 10 + (c.toNat - 48)) 0)) = some index ↔
      digits ≠ [] ∧ digits.all Char.isDigit = true ∧ Nat.ofDigitChars 10 digits 0 = index := by
    intro digits
    rw [hfold]
    cases hall : digits.all Char.isDigit <;> cases digits <;> simp
  unfold position?
  split
  · next rest hplus =>
    rw [hread, hplus]
    constructor
    · exact fun h => ⟨['+'], rest, Or.inr rfl, rfl, h⟩
    · rintro ⟨sign, digits, rfl | rfl, heq, hne, hdigits, hvalue⟩
      · -- A plus sign is no digit.
        rw [← (show '+' :: rest = digits from heq)] at hdigits
        exact absurd hdigits (by simp)
      · cases heq
        exact ⟨hne, hdigits, hvalue⟩
  · next chars hplus =>
    rw [hread]
    constructor
    · exact fun h => ⟨[], token.toList, Or.inl rfl, rfl, h⟩
    · rintro ⟨sign, digits, rfl | rfl, heq, h⟩
      · exact heq ▸ h
      · exact absurd heq (hplus digits)

/-- A position is read from its decimal digits. -/
theorem position?_toString (index : Nat) : position? (toString index) = some index := by
  have hchars : (toString index).toList = Nat.toDigits 10 index := by
    rw [Nat.toString_eq_ofList_toDigits, String.toList_ofList]
  have hdigits : (Nat.toDigits 10 index).all Char.isDigit = true :=
    hchars ▸ Text.all_isDigit_toString index
  exact position?_eq_some_iff_digits.mpr ⟨[], Nat.toDigits 10 index, Or.inl rfl, hchars,
    Nat.toDigits_ne_nil, hdigits, Nat.ofDigitChars_toDigits (by decide) (by decide)⟩

/-- The tokens of a path lead where the path does. -/
theorem LeadsTo.follow_eq {value target : Json} {path : List Step}
    (h : LeadsTo value path target) : follow value (path.map Step.token) = some target := by
  induction h with
  | here value => rfl
  | key found rest ih =>
    rw [List.map_cons, follow, step, Step.token, found]
    exact ih
  | position found rest ih =>
    rw [List.map_cons, follow, step, Step.token, position?_toString, Option.bind_some, found]
    exact ih

/-- A reference that is written for a path leads along it.  For every document and every path in
    it, whichever keys and positions the path goes through: it has references that are written for
    it, with any characters besides the percent sign in percent encoding; and of each of them,
    whichever bytes are encoded and in whichever case, the tokens are those of the path, and it
    resolves to the value that the path leads to. -/
theorem resolve_of_writtenFor {document value : Json} {path : List Step}
    (h : LeadsTo document path value) :
    (∀ escape : Char → Bool, escape '%' = true →
      WrittenFor (path.map Step.token) (ofTokens escape (path.map Step.token))) ∧
    ∀ reference, WrittenFor (path.map Step.token) reference →
      tokens reference = path.map Step.token ∧ resolve document reference = some value := by
  refine ⟨fun escape hescape => writtenFor_ofTokens hescape _, fun reference hwritten => ?_⟩
  have htokens : tokens reference = path.map Step.token := hwritten.tokens_eq
  have hinternal : isInternal reference = true := by
    obtain ⟨segments, -, rfl⟩ := hwritten
    unfold isInternal
    rw [toList_segments]
    rfl
  refine ⟨htokens, ?_⟩
  rw [resolve, if_pos hinternal, htokens]
  exact h.follow_eq

/-- A document whose keys look like escapes of either kind, one of them empty, and one like the
    position of an item. -/
def lookalikes : Json :=
  .obj [("a/~1", .obj [("1", .null), ("é%41", .arr [.null, .obj [("", .bool true)]])])]

/-- The path to the truth value in it. -/
def lookalikePath : List Step := [.key "a/~1", .key "é%41", .position 1, .key ""]

theorem resolve_lookalikePath : LeadsTo lookalikes lookalikePath (.bool true) ∧
    tokens "#/a%7E%31%7E0%31/%C3%A9%254%31/%31/" = ["a/~1", "é%41", "1", ""] ∧
    resolve lookalikes "#/a%7E%31%7E0%31/%C3%A9%254%31/%31/" = some (.bool true) := by
  have hpath : LeadsTo lookalikes lookalikePath (.bool true) :=
    .key rfl (.key rfl (.position rfl (.key rfl (.here _))))
  obtain ⟨hwrites, hresolves⟩ := resolve_of_writtenFor hpath
  have hwritten := hwrites (fun c => "%~1é".toList.contains c) (by decide +kernel)
  have htext : ofTokens (fun c => "%~1é".toList.contains c) (lookalikePath.map Step.token) =
      "#/a%7E%31%7E0%31/%C3%A9%254%31/%31/" := by decide +kernel
  rw [htext] at hwritten
  exact ⟨hpath, hresolves _ hwritten⟩

end TypedClient.Reference
