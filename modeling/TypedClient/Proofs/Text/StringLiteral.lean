/-
  TypedClient.Proofs.Text.StringLiteral

  Double-quoted literals of the generated language, read by its lexical rules: what the characters
  and the escapes between two double quotes stand for.  A text whose quotes and backslashes are
  escaped is read back if it is on a single line; a text as it is, if it has no quotes and no
  backslashes either.
-/
import TypedClient.Proofs.Text.Template
import TypedClient.Text.Quoted

namespace TypedClient

/-! ## Escapes -/

namespace Template

variable {source rest chars : List Char}

/-- An escape stands for one character at most. -/
theorem length_chars_escape?_le (h : escape? source = some (chars, rest)) : chars.length ≤ 1 := by
  have hcoded : ∀ {code : Option Char} {after : List Char},
      code.map (fun c => ([c], after)) = some (chars, rest) → chars.length ≤ 1 := by
    intro code after hmap
    obtain ⟨c, -, heq⟩ := Option.map_eq_some_iff.mp hmap
    obtain ⟨rfl, -⟩ := Prod.mk.inj heq
    exact Nat.le_refl _
  have hhex : ∀ {count : Nat} {after : List Char},
      hexEscape? count after = some (chars, rest) → chars.length ≤ 1 := by
    intro count after hsome
    unfold hexEscape? at hsome
    split at hsome
    · exact hcoded hsome
    · cases hsome
  unfold escape? at h
  split at h
  · cases h
  · cases h
    exact Nat.zero_le _
  · exact hhex h
  · unfold braceEscape? at h
    dsimp only at h
    split at h
    · cases h
    split at h
    · cases h
    · exact hcoded h
  · exact hhex h
  · split at h
    · cases h
      exact Nat.zero_le _
    split at h
    · split at h
      · cases h
        exact Nat.le_refl _
      · cases h
    · cases h
      exact Nat.le_refl _

/-- An escape does not stand for more than the characters after its backslash. -/
theorem length_escape?_le (h : escape? source = some (chars, rest)) :
    chars.length + rest.length ≤ source.length := by
  have hchars : chars.length ≤ 1 := length_chars_escape?_le h
  have hrest : rest.length < source.length := length_escape?_lt h
  omega

end Template

namespace StringLiteral

/-! ## The language -/

/-- Does the character stand for itself in a literal?  U+2028 and U+2029 do, which end a line in
    other places. -/
def standsForItself (c : Char) : Bool := c != '\\' && c != '"' && c != '\n' && c != '\r'

/-- What the first character or escape of what is left of a literal stands for, and the rest. -/
def char? : List Char → Option (List Char × List Char)
  | [] => none
  | c :: rest =>
    if c = '\\' then Template.escape? rest
    else if standsForItself c then some ([c], rest) else none

section

variable {source rest chars : List Char}

/-- A character stands for itself, and an escape for less characters than it has. -/
theorem char?_cases (h : char? source = some (chars, rest)) :
    (∃ c, standsForItself c = true ∧ source = c :: rest ∧ chars = [c]) ∨
      chars.length + rest.length < source.length := by
  unfold char? at h
  split at h
  · cases h
  split at h
  · next c rest' hslash =>
    right
    exact Nat.lt_succ_of_le (Template.length_escape?_le h)
  split at h
  · next c rest' hslash hplain =>
    cases h
    exact .inl ⟨c, hplain, rfl, rfl⟩
  · cases h

theorem length_char?_lt (h : char? source = some (chars, rest)) : rest.length < source.length := by
  rcases char?_cases h with ⟨c, -, rfl, -⟩ | hless
  · exact Nat.lt_succ_self _
  · omega

end

/-- What a literal stands for from after some of its characters to the closing quote, which has to
    be the last character. -/
def valueFrom? (source : List Char) : Option (List Char) :=
  match _h : char? source with
  | none => if source = ['"'] then some [] else none
  | some (chars, rest) => (valueFrom? rest).map (chars ++ ·)
termination_by source.length
decreasing_by exact length_char?_lt _h

/-- What a double-quoted literal stands for. -/
def value? (literal : String) : Option String :=
  match literal.toList with
  | '"' :: source => (valueFrom? source).map String.ofList
  | _ => none

/-! ## Reading -/

section

variable {source rest chars text : List Char} {c : Char}

theorem valueFrom?_of_char (h : char? source = some (chars, rest)) :
    valueFrom? source = (valueFrom? rest).map (chars ++ ·) := by
  rw [valueFrom?]
  split
  · next hnone =>
    rw [h] at hnone
    cases hnone
  · next hsome =>
    obtain ⟨rfl, rfl⟩ := Prod.mk.inj (Option.some.inj (h.symm.trans hsome))
    rfl

theorem valueFrom?_of_char_eq_none (h : char? source = none) :
    valueFrom? source = if source = ['"'] then some [] else none := by
  rw [valueFrom?]
  split
  · rfl
  · next hsome =>
    rw [h] at hsome
    cases hsome

/-- Nothing is left before the closing quote. -/
theorem valueFrom?_close : valueFrom? ['"'] = some [] := by
  rw [valueFrom?_of_char_eq_none rfl]
  rfl

theorem valueFrom?_plain (h : standsForItself c = true) (rest : List Char) :
    valueFrom? (c :: rest) = (valueFrom? rest).map (c :: ·) := by
  have hslash : c ≠ '\\' := by
    rintro rfl
    cases h
  have hchar : char? (c :: rest) = some ([c], rest) := by
    rw [char?, if_neg hslash, if_pos h]
  exact valueFrom?_of_char hchar

/-- A backslash before a quote or a backslash makes it stand for itself. -/
theorem valueFrom?_escaped (h : c = '\\' ∨ c = '"') (rest : List Char) :
    valueFrom? ('\\' :: c :: rest) = (valueFrom? rest).map (c :: ·) := by
  have hchar : char? ('\\' :: c :: rest) = some ([c], rest) := by
    rcases h with rfl | rfl <;> rfl
  exact valueFrom?_of_char hchar

/-- No literal goes over the end of a line. -/
theorem valueFrom?_break (h : c = '\n' ∨ c = '\r') (rest : List Char) :
    valueFrom? (c :: rest) = none := by
  have hchar : char? (c :: rest) = none := by
    rcases h with rfl | rfl <;> rfl
  rw [valueFrom?_of_char_eq_none hchar]
  refine if_neg fun heq => ?_
  rcases h with rfl | rfl <;> cases heq

/-- What is read is either shorter than what it is read from, or all of it. -/
theorem valueFrom?_cases (h : valueFrom? source = some text) :
    (source = text ++ ['"'] ∧ ∀ c ∈ text, standsForItself c = true) ∨
      text.length + 1 < source.length := by
  induction hlength : source.length using Nat.strongRecOn generalizing source text with
  | ind length ih =>
    subst hlength
    cases hchar : char? source with
    | none =>
      rw [valueFrom?_of_char_eq_none hchar] at h
      split at h
      · next hclose =>
        cases h
        exact .inl ⟨hclose, fun c hc => absurd hc List.not_mem_nil⟩
      · cases h
    | some result =>
      obtain ⟨chars, rest⟩ := result
      rw [valueFrom?_of_char hchar] at h
      obtain ⟨later, hlater, rfl⟩ := Option.map_eq_some_iff.mp h
      have hcases := ih rest.length (length_char?_lt hchar) hlater rfl
      rcases char?_cases hchar with ⟨c, hplain, rfl, rfl⟩ | hless
      · -- A character that stands for itself keeps the two lengths in step.
        rcases hcases with ⟨rfl, hall⟩ | hshort
        · exact .inl ⟨rfl, List.forall_mem_cons.mpr ⟨hplain, hall⟩⟩
        · exact .inr (Nat.succ_lt_succ hshort)
      · -- An escape loses a character, which the rest does not make up for.
        have hrest : later.length + 1 ≤ rest.length := by
          rcases hcases with ⟨rfl, -⟩ | hshort
          · simp
          · omega
        right
        rw [List.length_append]
        omega

end

/-! ## Texts between quotes -/

/-- Does every character stand for itself? -/
def Plain (text : String) : Prop := ∀ c ∈ text.toList, standsForItself c = true

/-- Is the text on a single line? -/
def OneLine (text : String) : Prop := ∀ c ∈ text.toList, c ≠ '\n' ∧ c ≠ '\r'

/-- Between quotes everything is read up to the closing one. -/
theorem value?_between_quotes {inner text : String} :
    value? ("\"" ++ inner ++ "\"") = some text ↔
      valueFrom? (inner.toList ++ ['"']) = some text.toList := by
  have hchars : ("\"" ++ inner ++ "\"").toList = '"' :: (inner.toList ++ ['"']) := by simp
  unfold value?
  rw [hchars]
  simp [String.ext_iff]

theorem map_cons_eq_some_iff {c : Char} {read : Option (List Char)} {text : List Char} :
    read.map (c :: ·) = some (c :: text) ↔ read = some text := by
  simp

/-- A text between quotes is read as itself if its characters stand for themselves. -/
theorem value?_between_quotes_iff {text : String} :
    value? ("\"" ++ text ++ "\"") = some text ↔ Plain text := by
  rw [value?_between_quotes]
  constructor
  · intro h
    rcases valueFrom?_cases h with ⟨-, hplain⟩ | hshort
    · exact hplain
    · -- The value has all of the characters, which an escape would not have left.
      rw [List.length_append, List.length_singleton] at hshort
      exact absurd hshort (Nat.lt_irrefl _)
  · intro hplain
    unfold Plain at hplain
    generalize text.toList = chars at hplain ⊢
    induction chars with
    | nil => exact valueFrom?_close
    | cons c rest ih =>
      obtain ⟨hc, hrest⟩ := List.forall_mem_cons.mp hplain
      rw [List.cons_append, valueFrom?_plain hc, ih hrest]
      rfl

theorem valueFrom?_escapeQuotes_iff {text : List Char} :
    valueFrom? (Text.escapeQuotes text ++ ['"']) = some text ↔
      ∀ c ∈ text, c ≠ '\n' ∧ c ≠ '\r' := by
  induction text with
  | nil => exact iff_of_true valueFrom?_close fun c hc => absurd hc List.not_mem_nil
  | cons c rest ih =>
    rw [List.forall_mem_cons, ← ih, Text.escapeQuotes]
    -- What has a backslash put before it ends no line, and what has none does, or is plain.
    split
    · next hescaped =>
      have hc : c ≠ '\n' ∧ c ≠ '\r' := by rcases hescaped with rfl | rfl <;> decide
      rw [List.cons_append, List.cons_append, valueFrom?_escaped hescaped, map_cons_eq_some_iff]
      exact (and_iff_right hc).symm
    · next hkept =>
      rw [List.cons_append]
      by_cases hbreak : c = '\n' ∨ c = '\r'
      · rw [valueFrom?_break hbreak]
        exact iff_of_false (fun h => nomatch h) fun h => hbreak.elim h.1.1 h.1.2
      · have hc : c ≠ '\n' ∧ c ≠ '\r' := not_or.mp hbreak
        have hplain : standsForItself c = true := by
          simp [standsForItself, not_or.mp hkept, hc]
        rw [valueFrom?_plain hplain, map_cons_eq_some_iff]
        exact (and_iff_right hc).symm

/-- A text with its quotes escaped is read as the text if it is on a single line. -/
theorem value?_quoted_iff {text : String} :
    value? (Text.quoted text) = some text ↔ OneLine text := by
  have hliteral : Text.quoted text =
      "\"" ++ String.ofList (Text.escapeQuotes text.toList) ++ "\"" := rfl
  rw [hliteral, value?_between_quotes, String.toList_ofList]
  exact valueFrom?_escapeQuotes_iff

end StringLiteral
end TypedClient
