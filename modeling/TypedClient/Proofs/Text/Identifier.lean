/-
  TypedClient.Proofs.Text.Identifier

  Names that the generated language takes as they are: a letter, then letters and digits.  The
  identifier of a text is such a name if the text has a letter, and empty if it has none.
-/
import Mathlib.Data.List.Basic
import TypedClient.Text.Naming

namespace TypedClient.Text

/-- Does the text have an ASCII letter? -/
def hasLetter (text : String) : Bool := text.toList.any Char.isAlpha

/-- Are all characters of the text ASCII letters and digits? -/
def isAlphanumeric (text : String) : Bool := text.toList.all Char.isAlphanum

/-- Does the text start with an ASCII letter and go on with ASCII letters and digits? -/
def isIdentifier (text : String) : Bool :=
  text.toList.head?.any Char.isAlpha && isAlphanumeric text

/-- Does the text start with a small ASCII letter? -/
def startsSmall (text : String) : Bool := text.toList.head?.any Char.isLower

/-- Does the text start with a digit? -/
def startsDigit (text : String) : Bool := text.toList.head?.any Char.isDigit

section

variable {first second text : String}

/-! ## Putting names together -/

theorem isAlphanumeric_append :
    isAlphanumeric (first ++ second) = (isAlphanumeric first && isAlphanumeric second) := by
  unfold isAlphanumeric
  rw [String.toList_append, List.all_append]

theorem isAlphanumeric_of_isIdentifier (h : isIdentifier text = true) :
    isAlphanumeric text = true :=
  (Bool.and_eq_true_iff.mp h).2

/-- An empty name is no identifier. -/
theorem ne_empty_of_isIdentifier (h : isIdentifier text = true) : text ≠ "" := by
  rintro rfl
  cases h

theorem ne_empty_of_startsDigit (h : startsDigit text = true) : text ≠ "" := by
  rintro rfl
  cases h

/-- A name that is not empty has the same start with another one after it. -/
theorem head?_append (h : first ≠ "") :
    (first ++ second).toList.head? = first.toList.head? := by
  rw [String.toList_append]
  exact List.head?_append_of_ne_nil _ (by simpa using h)

/-- What comes after a name that is not empty only has to have letters and digits. -/
theorem isIdentifier_append (h : first ≠ "") :
    isIdentifier (first ++ second) = (isIdentifier first && isAlphanumeric second) := by
  unfold isIdentifier
  rw [head?_append h, isAlphanumeric_append, Bool.and_assoc]

theorem startsSmall_append (hfirst : startsSmall first = false)
    (hsecond : startsSmall second = false) : startsSmall (first ++ second) = false := by
  by_cases h : first = ""
  · rw [h, String.empty_append]
    exact hsecond
  · unfold startsSmall at hfirst ⊢
    rw [head?_append h]
    exact hfirst

theorem hasLetter_append : hasLetter (first ++ second) = (hasLetter first || hasLetter second) := by
  unfold hasLetter
  rw [String.toList_append, List.any_append]

theorem startsDigit_append (h : startsDigit first = true) :
    startsDigit (first ++ second) = true := by
  have hhead := @head?_append _ second (ne_empty_of_startsDigit h)
  unfold startsDigit at h ⊢
  rw [hhead]
  exact h

/-- A number that is not empty starts with a digit. -/
theorem startsDigit_of_all (h : text.toList.all Char.isDigit = true) (hne : text ≠ "") :
    startsDigit text = true := by
  unfold startsDigit
  cases hchars : text.toList with
  | nil => exact absurd (String.toList_eq_nil_iff.mp hchars) hne
  | cons c rest =>
    rw [hchars, List.all_cons, Bool.and_eq_true] at h
    exact h.1

/-- A number is written in digits. -/
theorem all_isDigit_toString (n : Nat) : (toString n).toList.all Char.isDigit = true := by
  refine List.all_eq_true.mpr fun c hc => ?_
  rw [Nat.toString_eq_ofList_toDigits, String.toList_ofList] at hc
  exact Nat.isDigit_of_mem_toDigits (by decide) (by decide) hc

theorem isAlphanumeric_of_all_isDigit (h : text.toList.all Char.isDigit = true) :
    isAlphanumeric text = true := by
  refine List.all_eq_true.mpr fun c hc => ?_
  rw [Char.isAlphanum, List.all_eq_true.mp h c hc, Bool.or_true]

/-! ### Letters by their code points -/

theorem isUpper_iff {c : Char} : c.isUpper = true ↔ 65 ≤ c.toNat ∧ c.toNat ≤ 90 :=
  decide_eq_true_iff

theorem isLower_iff {c : Char} : c.isLower = true ↔ 97 ≤ c.toNat ∧ c.toNat ≤ 122 :=
  Bool.and_eq_true_iff.trans (and_congr decide_eq_true_iff decide_eq_true_iff)

theorem isAlpha_iff {c : Char} : c.isAlpha = true ↔
    (65 ≤ c.toNat ∧ c.toNat ≤ 90) ∨ (97 ≤ c.toNat ∧ c.toNat ≤ 122) :=
  Bool.or_eq_true_iff.trans (or_congr isUpper_iff isLower_iff)

/-- A digit is no letter. -/
theorem isAlpha_of_isDigit {c : Char} (h : c.isDigit = true) : c.isAlpha = false := by
  rw [Bool.eq_false_iff]
  intro halpha
  have hdigit : 48 ≤ c.toNat ∧ c.toNat ≤ 57 := Char.isDigit_iff_toNat.mp h
  rw [isAlpha_iff] at halpha
  omega

/-- A capital is a letter, and no small one. -/
theorem of_isUpper {c : Char} (h : c.isUpper = true) : c.isAlpha = true ∧ c.isLower = false := by
  refine ⟨Bool.or_eq_true_iff.mpr (Or.inl h), Bool.eq_false_iff.mpr fun hlower => ?_⟩
  rw [isUpper_iff] at h
  rw [isLower_iff] at hlower
  omega

/-- A small letter is raised by the distance of the two cases. -/
theorem toNat_toUpper_of_isLower {c : Char} (h : c.isLower = true) :
    c.toUpper.toNat = c.toNat - 32 := by
  have hbounds := isLower_iff.mp h
  have hcase : 'a'.val ≤ c.val ∧ c.val ≤ 'z'.val :=
    (Bool.and_eq_true_iff.mp h).imp of_decide_eq_true of_decide_eq_true
  have hval : c.toUpper.val = c.val + ('A'.val - 'a'.val) := by
    delta Char.toUpper
    rw [dif_pos hcase]
  have hshift : ('A'.val - 'a'.val).toNat = 2 ^ 32 - 32 := by decide
  have hsum : c.toUpper.val.toNat = (c.toNat + (2 ^ 32 - 32)) % 2 ^ 32 := by
    rw [hval, UInt32.toNat_add, hshift]
    rfl
  change c.toUpper.val.toNat = c.toNat - 32
  omega

/-- A capital stays as it is. -/
theorem toUpper_of_isUpper {c : Char} (h : c.isUpper = true) : c.toUpper = c := by
  refine dif_neg fun hlower => ?_
  have hbounds : 97 ≤ c.toNat ∧ c.toNat ≤ 122 := hlower
  rw [isUpper_iff] at h
  omega

/-- A letter is a capital once it is raised. -/
theorem isUpper_toUpper {c : Char} (h : c.isAlpha = true) : c.toUpper.isUpper = true := by
  rcases Bool.or_eq_true_iff.mp h with hupper | hlower
  · rw [toUpper_of_isUpper hupper]
    exact hupper
  · have hbounds := isLower_iff.mp hlower
    rw [isUpper_iff, toNat_toUpper_of_isLower hlower]
    omega

/-- A letter is written as a letter, raised or not. -/
theorem isAlpha_raised {c : Char} {raise : Bool} (h : c.isAlpha = true) :
    (if raise then c.toUpper else c).isAlpha = true := by
  cases raise with
  | true => exact (of_isUpper (isUpper_toUpper h)).1
  | false => exact h

/-- A text that starts with a digit is no name, and does not start with a small letter. -/
theorem of_startsDigit (h : startsDigit text = true) :
    isIdentifier text = false ∧ startsSmall text = false := by
  unfold startsDigit at h
  unfold isIdentifier startsSmall
  cases hchars : text.toList with
  | nil => exact ⟨rfl, rfl⟩
  | cons c rest =>
    rw [hchars] at h
    have halpha : c.isAlpha = false := isAlpha_of_isDigit h
    obtain ⟨-, hlower⟩ := Bool.or_eq_false_iff.mp halpha
    rw [List.head?_cons, Option.any_some, Option.any_some, halpha]
    exact ⟨rfl, hlower⟩

/-! ## Camel case -/

/-- Camel case writes letters and digits only. -/
theorem all_camelizeFrom (started raise : Bool) (chars : List Char) :
    (camelizeFrom started raise chars).all Char.isAlphanum = true := by
  induction chars generalizing started raise with
  | nil => rfl
  | cons c rest ih =>
    unfold camelizeFrom
    split
    · next halpha =>
      have hwritten : (if raise then c.toUpper else c).isAlphanum = true :=
        Bool.or_eq_true_iff.mpr (Or.inl (isAlpha_raised halpha))
      rw [List.all_cons, hwritten, ih]
      rfl
    · split
      · next hdigit =>
        split
        · rw [List.all_cons, ih, Char.isAlphanum, hdigit, Bool.or_true]
          rfl
        · exact ih ..
      · exact ih ..

/-- Camel case starts with the first letter, so that it is empty when there is none. -/
theorem head?_camelizeFrom (raise : Bool) (chars : List Char) :
    (camelizeFrom false raise chars).head?.any Char.isAlpha = chars.any Char.isAlpha ∧
      (chars.any Char.isAlpha = false → camelizeFrom false raise chars = []) := by
  induction chars generalizing raise with
  | nil => exact ⟨rfl, fun _ => rfl⟩
  | cons c rest ih =>
    unfold camelizeFrom
    rw [List.any_cons]
    split
    · next halpha =>
      rw [halpha]
      exact ⟨isAlpha_raised halpha, nofun⟩
    · next halpha =>
      rw [Bool.not_eq_true] at halpha
      rw [halpha, Bool.false_or]
      split
      · exact ih ..
      · exact ih ..

theorem isIdentifier_camelize (name : String) :
    isIdentifier (camelize name) = hasLetter name := by
  unfold isIdentifier isAlphanumeric hasLetter camelize
  rw [String.toList_ofList, all_camelizeFrom, Bool.and_true]
  exact (head?_camelizeFrom ..).1

/-- Nothing is left of a text without a letter. -/
theorem camelize_of_not_hasLetter {name : String} (h : hasLetter name = false) :
    camelize name = "" := by
  unfold camelize
  rw [(head?_camelizeFrom ..).2 h, String.ofList_nil]

/-! ## Identifiers -/

/-- The first letter of an identifier is raised, and the rest is left. -/
theorem capitalizeFirst_eq {c : Char} {rest : List Char} (htext : text.toList = c :: rest)
    (h : c.isAlpha = true) : capitalizeFirst text = String.ofList (c.toUpper :: rest) := by
  have hascii : c.toNat < 0x80 := by
    rw [isAlpha_iff] at h
    omega
  unfold capitalizeFirst
  rw [htext]
  dsimp only
  rw [uppercase, if_pos hascii]
  rfl

/-- The identifier of a text with a letter is a name that does not start with a small one. -/
theorem identifier_of_hasLetter {name : String} (h : hasLetter name = true) :
    isIdentifier (identifier name) = true ∧ startsSmall (identifier name) = false := by
  have hcamel : isIdentifier (camelize name) = true := (isIdentifier_camelize name).trans h
  obtain ⟨hhead, hall⟩ := Bool.and_eq_true_iff.mp hcamel
  unfold isAlphanumeric at hall
  unfold identifier
  cases hchars : (camelize name).toList with
  | nil =>
    rw [hchars] at hhead
    cases hhead
  | cons c rest =>
    rw [hchars] at hhead hall
    rw [capitalizeFirst_eq hchars hhead]
    rw [List.all_cons, Bool.and_eq_true] at hall
    obtain ⟨halpha, hlower⟩ := of_isUpper (isUpper_toUpper hhead)
    constructor
    · unfold isIdentifier isAlphanumeric
      rw [String.toList_ofList, List.all_cons, hall.2, Char.isAlphanum, halpha, List.head?_cons,
        Option.any_some, halpha]
      rfl
    · unfold startsSmall
      rw [String.toList_ofList]
      exact hlower

theorem identifier_of_not_hasLetter {name : String} (h : hasLetter name = false) :
    identifier name = "" := by
  unfold identifier
  rw [camelize_of_not_hasLetter h]
  rfl

/-- The identifier of a text is a name just when the text has a letter. -/
theorem isIdentifier_identifier (name : String) :
    isIdentifier (identifier name) = hasLetter name := by
  cases h : hasLetter name with
  | true => exact (identifier_of_hasLetter h).1
  | false =>
    rw [identifier_of_not_hasLetter h]
    rfl

theorem startsSmall_identifier (name : String) : startsSmall (identifier name) = false := by
  cases h : hasLetter name with
  | true => exact (identifier_of_hasLetter h).2
  | false =>
    rw [identifier_of_not_hasLetter h]
    rfl

/-! ## Parts of names -/

/-- A part that names are put together from: nothing, or a name without a small letter first. -/
structure IsPart (text : String) : Prop where
  small : startsSmall text = false
  name : text = "" ∨ isIdentifier text = true

theorem isPart_empty : IsPart "" := ⟨rfl, Or.inl rfl⟩

theorem isPart_identifier (name : String) : IsPart (identifier name) where
  small := startsSmall_identifier name
  name := by
    rw [isIdentifier_identifier]
    cases h : hasLetter name with
    | true => exact Or.inr rfl
    | false => exact Or.inl (identifier_of_not_hasLetter h)

theorem isPart_enumSuffix : IsPart enumSuffix := ⟨by decide +kernel, Or.inr (by decide +kernel)⟩

theorem IsPart.isAlphanumeric (h : IsPart text) : isAlphanumeric text = true := by
  rcases h.name with rfl | h
  · rfl
  · exact isAlphanumeric_of_isIdentifier h

/-- Two parts are one. -/
theorem IsPart.append (hfirst : IsPart first) (hsecond : IsPart second) :
    IsPart (first ++ second) where
  small := startsSmall_append hfirst.small hsecond.small
  name := by
    rcases hfirst.name with rfl | hname
    · rw [String.empty_append]
      exact hsecond.name
    · rw [isIdentifier_append (ne_empty_of_isIdentifier hname), hname, hsecond.isAlphanumeric]
      exact Or.inr rfl

/-- A text with a part after it is a name if the text is one, or if there is just the part. -/
theorem IsPart.isIdentifier_append_iff (h : IsPart second) :
    isIdentifier (first ++ second) = true ↔
      isIdentifier first = true ∨ (first = "" ∧ first ++ second ≠ "") := by
  by_cases hfirst : first = ""
  · subst hfirst
    rw [String.empty_append]
    constructor
    · exact fun hname => Or.inr ⟨rfl, ne_empty_of_isIdentifier hname⟩
    · rintro (hempty | ⟨-, hname⟩)
      · cases hempty
      · exact h.name.resolve_left hname
  · rw [Text.isIdentifier_append hfirst, h.isAlphanumeric, Bool.and_true]
    exact ⟨Or.inl, fun h => h.resolve_right fun hempty => hfirst hempty.1⟩

end

end TypedClient.Text
