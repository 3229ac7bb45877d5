/-
  TypedClient.Proofs.Text.CamelCase

  Camel case as a projection onto its grammar, which is said apart from the loop that writes it:
  nothing, or a letter with letters and digits after it, where a letter right after a digit is a
  capital.

  The loop raises a letter after a digit and after a dropped character.  What it writes is in the
  grammar because the flag is set whenever the last character written is a digit; it leaves a text
  of the grammar alone because nothing is dropped there, so that the flag is set only then.
-/
import Mathlib.Data.List.Chain
import TypedClient.Proofs.Text.Identifier

namespace TypedClient.Text

/-- A letter right after a digit is a capital. -/
def CapitalAfterDigit (c next : Char) : Prop :=
  c.isDigit = true → next.isAlpha = true → next.isUpper = true

instance : DecidableRel CapitalAfterDigit := fun c next =>
  inferInstanceAs (Decidable (c.isDigit = true → next.isAlpha = true → next.isUpper = true))

/-- A text in camel case: nothing, or an ASCII letter with ASCII letters and digits after it, where
    a letter right after a digit is a capital. -/
structure IsCamelCase (text : String) : Prop where
  name : text = "" ∨ isIdentifier text = true
  capitals : text.toList.IsChain CapitalAfterDigit

instance : DecidablePred IsCamelCase := fun text =>
  decidable_of_iff ((text = "" ∨ isIdentifier text = true) ∧ text.toList.IsChain CapitalAfterDigit)
    ⟨fun h => ⟨h.1, h.2⟩, fun h => ⟨h.name, h.capitals⟩⟩

/-- Does the text start with an ASCII capital? -/
def startsCapital (text : String) : Bool := text.toList.head?.any Char.isUpper

section

variable {text : String} {c : Char} {chars : List Char} {raise : Bool}

/-! ## What is written -/

/-- A letter is no digit. -/
theorem isDigit_of_isAlpha (h : c.isAlpha = true) : c.isDigit = false := by
  rw [Bool.eq_false_iff]
  intro hdigit
  rw [isAlpha_of_isDigit hdigit] at h
  cases h

/-- Once something has been written, a letter after a digit is raised as long as the flag is set
    after a digit. -/
theorem isChain_camelizeFrom (chars : List Char) (h : c.isDigit = true → raise = true) :
    (c :: camelizeFrom true raise chars).IsChain CapitalAfterDigit := by
  -- `c` is the last character written; what is dropped keeps it and sets the flag anyway.
  induction chars generalizing c raise with
  | nil => exact List.isChain_singleton c
  | cons d rest ih =>
    unfold camelizeFrom
    split
    · next halpha =>
      have hwritten : (if raise then d.toUpper else d).isAlpha = true := isAlpha_raised halpha
      refine List.isChain_cons_cons.mpr ⟨fun hdigit _ => ?_, ih fun hdigit => ?_⟩
      · rw [h hdigit, if_pos rfl]
        exact isUpper_toUpper halpha
      · rw [isDigit_of_isAlpha hwritten] at hdigit
        cases hdigit
    · next halpha =>
      split
      · exact List.isChain_cons_cons.mpr ⟨fun _ hnext => absurd hnext halpha, ih fun _ => rfl⟩
      · exact ih fun _ => rfl

/-- The same from the start, where digits are dropped. -/
theorem isChain_camelizeFrom_start (raise : Bool) (chars : List Char) :
    (camelizeFrom false raise chars).IsChain CapitalAfterDigit := by
  induction chars generalizing raise with
  | nil => exact List.isChain_nil
  | cons d rest ih =>
    unfold camelizeFrom
    split
    · next halpha =>
      refine isChain_camelizeFrom rest fun hdigit => ?_
      rw [isDigit_of_isAlpha (isAlpha_raised halpha)] at hdigit
      cases hdigit
    · split
      · exact ih ..
      · exact ih ..

theorem isCamelCase_camelize (name : String) : IsCamelCase (camelize name) where
  name := by
    cases h : hasLetter name with
    | true => exact Or.inr ((isIdentifier_camelize name).trans h)
    | false => exact Or.inl (camelize_of_not_hasLetter h)
  capitals := by
    unfold camelize
    rw [String.toList_ofList]
    exact isChain_camelizeFrom_start false name.toList

/-! ## What is left alone -/

/-- After a character that has been written, letters and digits in camel case are left alone when
    the flag tells whether that character is a digit. -/
theorem camelizeFrom_eq_self (hchain : (c :: chars).IsChain CapitalAfterDigit)
    (hall : chars.all Char.isAlphanum = true) : camelizeFrom true c.isDigit chars = chars := by
  -- Nothing is dropped, so the flag goes on telling whether the last character is a digit.
  induction chars generalizing c with
  | nil => rfl
  | cons d rest ih =>
    obtain ⟨hcapital, hrest⟩ := List.isChain_cons_cons.mp hchain
    rw [List.all_cons, Bool.and_eq_true] at hall
    have hleft : camelizeFrom true d.isDigit rest = rest := ih hrest hall.2
    unfold camelizeFrom
    cases halpha : d.isAlpha with
    | true =>
      have hwritten : (if c.isDigit then d.toUpper else d) = d := by
        split
        · next hdigit =>
          exact toUpper_of_isUpper (hcapital hdigit halpha)
        · rfl
      rw [isDigit_of_isAlpha halpha] at hleft
      rw [if_pos rfl, hwritten, hleft]
    | false =>
      have hdigit : d.isDigit = true := by simpa [Char.isAlphanum, halpha] using hall.1
      rw [hdigit] at hleft
      rw [if_neg Bool.false_ne_true, if_pos hdigit, if_pos rfl, hleft]

/-- An identifier is a letter with letters and digits after it. -/
theorem exists_of_isIdentifier (h : isIdentifier text = true) :
    ∃ c rest, text = String.ofList (c :: rest) ∧ c.isAlpha = true ∧
      rest.all Char.isAlphanum = true := by
  obtain ⟨hhead, hall⟩ := Bool.and_eq_true_iff.mp h
  unfold isAlphanumeric at hall
  cases hchars : text.toList with
  | nil =>
    rw [hchars] at hhead
    cases hhead
  | cons c rest =>
    rw [hchars] at hhead hall
    rw [List.all_cons, Bool.and_eq_true] at hall
    exact ⟨c, rest, by rw [← hchars, String.ofList_toList], hhead, hall.2⟩

theorem camelize_of_isCamelCase (h : IsCamelCase text) : camelize text = text := by
  obtain ⟨rfl | hname, hchain⟩ := h
  · rfl
  · obtain ⟨c, rest, rfl, halpha, hall⟩ := exists_of_isIdentifier hname
    rw [String.toList_ofList] at hchain
    have hrest : camelizeFrom true false rest = rest :=
      isDigit_of_isAlpha halpha ▸ camelizeFrom_eq_self hchain hall
    unfold camelize
    rw [String.toList_ofList, camelizeFrom, if_pos halpha, hrest]
    rfl

theorem camelize_eq_self_iff (name : String) : camelize name = name ↔ IsCamelCase name :=
  ⟨fun h => h ▸ isCamelCase_camelize name, camelize_of_isCamelCase⟩

theorem camelize_camelize (name : String) : camelize (camelize name) = camelize name :=
  camelize_of_isCamelCase (isCamelCase_camelize name)

/-! ## Identifiers -/

/-- The first letter of a text in camel case can be raised. -/
theorem isCamelCase_capitalizeFirst (h : IsCamelCase text) :
    IsCamelCase (capitalizeFirst text) ∧
      (capitalizeFirst text = "" ∨ startsCapital (capitalizeFirst text) = true) := by
  obtain ⟨rfl | hname, hchain⟩ := h
  · exact ⟨⟨Or.inl rfl, List.isChain_nil⟩, Or.inl rfl⟩
  · obtain ⟨c, rest, rfl, halpha, hall⟩ := exists_of_isIdentifier hname
    rw [String.toList_ofList] at hchain
    have hcapital : c.toUpper.isUpper = true := isUpper_toUpper halpha
    have hraised : c.toUpper.isAlpha = true := (of_isUpper hcapital).1
    rw [capitalizeFirst_eq (String.toList_ofList ..) halpha]
    refine ⟨⟨Or.inr ?_, ?_⟩, Or.inr ?_⟩
    · unfold isIdentifier isAlphanumeric
      rw [String.toList_ofList, List.head?_cons, Option.any_some, List.all_cons, Char.isAlphanum,
        hraised, hall]
      rfl
    · rw [String.toList_ofList, List.isChain_cons]
      refine ⟨fun next _ hdigit => ?_, (List.isChain_cons.mp hchain).2⟩
      rw [isDigit_of_isAlpha hraised] at hdigit
      cases hdigit
    · unfold startsCapital
      rw [String.toList_ofList]
      exact hcapital

/-- A first letter that is a capital stays as it is. -/
theorem capitalizeFirst_of_startsCapital (h : IsCamelCase text)
    (hcapital : text = "" ∨ startsCapital text = true) : capitalizeFirst text = text := by
  obtain ⟨rfl | hname, -⟩ := h
  · rfl
  · obtain ⟨c, rest, rfl, halpha, -⟩ := exists_of_isIdentifier hname
    have hupper : c.isUpper = true := by
      have hstart := hcapital.resolve_left (ne_empty_of_isIdentifier hname)
      unfold startsCapital at hstart
      rw [String.toList_ofList] at hstart
      exact hstart
    rw [capitalizeFirst_eq (String.toList_ofList ..) halpha, toUpper_of_isUpper hupper]

theorem isCamelCase_identifier (name : String) :
    IsCamelCase (identifier name) ∧
      (identifier name = "" ∨ startsCapital (identifier name) = true) :=
  isCamelCase_capitalizeFirst (isCamelCase_camelize name)

/-- Identifiers are the texts in camel case that start with a capital, if they are not empty. -/
theorem identifier_eq_self_iff (name : String) :
    identifier name = name ↔ IsCamelCase name ∧ (name = "" ∨ startsCapital name = true) := by
  constructor
  · intro h
    have hname := isCamelCase_identifier name
    rw [h] at hname
    exact hname
  · rintro ⟨hcamel, hcapital⟩
    unfold identifier
    rw [camelize_of_isCamelCase hcamel, capitalizeFirst_of_startsCapital hcamel hcapital]

end

/-- Camel case is a projection onto its grammar: it gives a text of the grammar, and leaves just
    these as they are, so that a second time changes nothing.  Identifiers are those of them that
    start with a capital, if they are not empty; they too are left as they are, and just these, and
    a text has the identifier of its camel case. -/
theorem camelize_projects (text : String) :
    (IsCamelCase (camelize text) ∧ (camelize text = text ↔ IsCamelCase text) ∧
      camelize (camelize text) = camelize text) ∧
    (IsCamelCase (identifier text) ∧
      (identifier text = "" ∨ startsCapital (identifier text) = true) ∧
      (identifier text = text ↔ IsCamelCase text ∧ (text = "" ∨ startsCapital text = true)) ∧
      identifier (identifier text) = identifier text) ∧
    identifier (camelize text) = identifier text := by
  obtain ⟨hcamel, hcapital⟩ := isCamelCase_identifier text
  refine ⟨⟨isCamelCase_camelize text, camelize_eq_self_iff text, camelize_camelize text⟩,
    ⟨hcamel, hcapital, identifier_eq_self_iff text, ?_⟩, ?_⟩
  · exact (identifier_eq_self_iff _).mpr ⟨hcamel, hcapital⟩
  · unfold identifier
    rw [camelize_camelize]

example : IsCamelCase "pet2Name" ∧ ¬ IsCamelCase "pet2name" ∧ ¬ IsCamelCase "2pet" := by
  decide +kernel

end TypedClient.Text
