/-
  TypedClient.Proofs.Text.Template

  Template literals of the generated language, read by its lexical rules: what the characters and
  the escapes between two backquotes stand for, with the value of a name in the place of every
  substitution.  Escaped text stands for the text.
-/
import TypedClient.Operation
import TypedClient.Proofs.Text.Identifier
import TypedClient.Text.Digits

namespace TypedClient.Template

/-! ## The language -/

/-- Does the character end a line? -/
def endsLine (c : Char) : Bool := c = '\n' || c = '\r' || c = '\u2028' || c = '\u2029'

/-- Letters that stand for a control character after a backslash. -/
def controlEscapes : List (Char × Char) :=
  [('b', '\x08'), ('t', '\t'), ('n', '\n'), ('v', '\x0b'), ('f', '\x0c'), ('r', '\r')]

/-- The character whose code point the first `count` characters spell, and what comes after.  Half
    of a surrogate pair is no character here. -/
def hexEscape? (count : Nat) (source : List Char) : Option (List Char × List Char) :=
  if (source.take count).length = count then
    (Text.codeChar? (source.take count)).map fun c => ([c], source.drop count)
  else none

/-- The character whose code point stands before the next closing brace, and what comes after. -/
def braceEscape? (source : List Char) : Option (List Char × List Char) :=
  let digits := source.takeWhile (· != '\x7d')
  match source.dropWhile (· != '\x7d') with
  | [] => none
  | _ :: rest => if digits.isEmpty then none else (Text.codeChar? digits).map fun c => ([c], rest)

/-- What stands after a backslash: the characters that it stands for, and the rest.  A line that
    ends there goes on, a digit has no meaning but for a lone zero, and any other character that is
    no letter of an escape stands for itself. -/
def escape? : List Char → Option (List Char × List Char)
  | [] => none
  | '\r' :: '\n' :: rest => some ([], rest)
  | 'x' :: rest => hexEscape? 2 rest
  | 'u' :: '\x7b' :: rest => braceEscape? rest
  | 'u' :: rest => hexEscape? 4 rest
  | c :: rest =>
    if endsLine c then some ([], rest)
    else if c.isDigit then
      if c = '0' && !rest.head?.any Char.isDigit then some (['\x00'], rest) else none
    else some ([(controlEscapes.lookup c).getD c], rest)

/-- A piece of a literal: some characters, or the name that is substituted. -/
inductive Piece where
  | text (chars : List Char)
  | substitution (name : String)

/-- What a piece stands for when names have values. -/
def Piece.value (env : String → String) : Piece → List Char
  | .text chars => chars
  | .substitution name => (env name).toList

/-- The name before the next closing brace, and what comes after. -/
def substitution? (source : List Char) : Option (Piece × List Char) :=
  let name := String.ofList (source.takeWhile (· != '\x7d'))
  match source.dropWhile (· != '\x7d') with
  | [] => none
  | _ :: rest => if Text.isIdentifier name then some (.substitution name, rest) else none

/-- The first piece of what is left of a literal, and the rest.  Every line ends in a line feed, and
    a backquote is no piece. -/
def piece? : List Char → Option (Piece × List Char)
  | [] => none
  | '\\' :: rest => (escape? rest).map fun (chars, rest) => (.text chars, rest)
  | '$' :: '\x7b' :: rest => substitution? rest
  | '\r' :: '\n' :: rest => some (.text ['\n'], rest)
  | c :: rest => if c = '\x60' then none else some (.text [if c = '\r' then '\n' else c], rest)

/-! ### Pieces take characters -/

section

variable {source rest chars : List Char} {piece : Piece}

theorem length_lt_of_dropWhile {p : Char → Bool} {c : Char} (h : source.dropWhile p = c :: rest) :
    rest.length < source.length := by
  have hlength := (List.dropWhile_suffix p (l := source)).length_le
  rw [h, List.length_cons] at hlength
  omega

theorem length_hexEscape?_le {count : Nat} (h : hexEscape? count source = some (chars, rest)) :
    rest.length ≤ source.length := by
  unfold hexEscape? at h
  split at h
  · obtain ⟨c, -, heq⟩ := Option.map_eq_some_iff.mp h
    obtain ⟨-, rfl⟩ := Prod.mk.inj heq
    rw [List.length_drop]
    exact Nat.sub_le ..
  · cases h

theorem length_braceEscape?_lt (h : braceEscape? source = some (chars, rest)) :
    rest.length < source.length := by
  unfold braceEscape? at h
  dsimp only at h
  split at h
  · cases h
  · next hdrop =>
    split at h
    · cases h
    · obtain ⟨c, -, heq⟩ := Option.map_eq_some_iff.mp h
      obtain ⟨-, rfl⟩ := Prod.mk.inj heq
      exact length_lt_of_dropWhile hdrop

theorem length_escape?_lt (h : escape? source = some (chars, rest)) :
    rest.length < source.length := by
  unfold escape? at h
  split at h
  · cases h
  · cases h
    exact Nat.lt_succ_of_lt (Nat.lt_succ_self _)
  · exact Nat.lt_succ_of_le (length_hexEscape?_le h)
  · exact Nat.lt_succ_of_lt (Nat.lt_succ_of_lt (length_braceEscape?_lt h))
  · exact Nat.lt_succ_of_le (length_hexEscape?_le h)
  · split at h
    · cases h
      simp
    split at h
    · split at h
      · cases h
        simp
      · cases h
    · cases h
      simp

theorem length_substitution?_lt (h : substitution? source = some (piece, rest)) :
    rest.length < source.length := by
  unfold substitution? at h
  dsimp only at h
  split at h
  · cases h
  · next hdrop =>
    split at h
    · cases h
      exact length_lt_of_dropWhile hdrop
    · cases h

/-- Every piece takes a character at least. -/
theorem length_piece?_lt (h : piece? source = some (piece, rest)) :
    rest.length < source.length := by
  unfold piece? at h
  split at h
  · cases h
  · obtain ⟨⟨chars, after⟩, hescape, heq⟩ := Option.map_eq_some_iff.mp h
    obtain ⟨-, rfl⟩ := Prod.mk.inj heq
    exact Nat.lt_succ_of_lt (length_escape?_lt hescape)
  · exact Nat.lt_succ_of_lt (Nat.lt_succ_of_lt (length_substitution?_lt h))
  · cases h
    exact Nat.lt_succ_of_lt (Nat.lt_succ_self _)
  · split at h
    · cases h
    · cases h
      simp

end

/-- What a literal stands for from after some of its pieces to the closing backquote, which has to
    be the last character. -/
def valueFrom? (env : String → String) (source : List Char) : Option (List Char) :=
  match _h : piece? source with
  | none => if source = ['\x60'] then some [] else none
  | some (piece, rest) => (valueFrom? env rest).map (piece.value env ++ ·)
termination_by source.length
decreasing_by exact length_piece?_lt _h

/-- What a template literal stands for when names have values. -/
def value? (env : String → String) (literal : String) : Option String :=
  match literal.toList with
  | '\x60' :: source => (valueFrom? env source).map String.ofList
  | _ => none

/-! ## Escaping -/

/-- The text with `replacement` in the place of every `c`. -/
def replaceEvery (c : Char) (replacement text : List Char) : List Char :=
  text.flatMap fun other => if other = c then replacement else [other]

/-- The text with a backslash before every dollar sign that has an opening brace after it. -/
def breakOpeners : List Char → List Char
  | '$' :: '\x7b' :: rest => '\\' :: '$' :: '\x7b' :: breakOpeners rest
  | c :: rest => c :: breakOpeners rest
  | [] => []

theorem breakOpeners_cons {c : Char} {rest : List Char}
    (h : c = '$' → rest.head? ≠ some '\x7b') :
    breakOpeners (c :: rest) = c :: breakOpeners rest := by
  rw [breakOpeners]
  rintro tail rfl rfl
  exact h rfl rfl

/-- Escaping is three replacements, one after the other: of backslashes, of backquotes, and of what
    opens a substitution.  None of them touches what another one has put in. -/
theorem escapeTemplate_eq_breakOpeners (text : List Char) :
    PathPart.escapeTemplate text = breakOpeners
      (replaceEvery '\x60' ['\\', '\x60'] (replaceEvery '\\' ['\\', '\\'] text)) := by
  have hkept : ∀ c, c ≠ '$' → ∀ rest, breakOpeners (c :: rest) = c :: breakOpeners rest :=
    fun c hc rest => breakOpeners_cons fun h => absurd h hc
  unfold replaceEvery
  rw [List.flatMap_assoc]
  fun_induction PathPart.escapeTemplate text with
  | case1 text ih =>
    rw [List.flatMap_cons, ih]
    exact (congrArg _ (hkept _ (by decide) _)).symm
  | case2 text ih =>
    rw [List.flatMap_cons, ih]
    exact (congrArg _ (hkept _ (by decide) _)).symm
  | case3 text ih =>
    rw [List.flatMap_cons, List.flatMap_cons, ih]
    rfl
  | case4 c text hslash hquote hdollar ih =>
    rw [List.flatMap_cons, ih, if_neg hslash, List.flatMap_singleton, if_neg hquote,
      List.singleton_append, breakOpeners_cons]
    -- A text whose replacement starts with a brace starts with one itself.
    rintro rfl hhead
    cases text with
    | nil => cases hhead
    | cons d text =>
      rw [List.flatMap_cons] at hhead
      by_cases hslash' : d = '\\'
      · subst hslash'
        cases hhead
      by_cases hquote' : d = '\x60'
      · subst hquote'
        cases hhead
      rw [if_neg hslash', List.flatMap_singleton, if_neg hquote'] at hhead
      exact hdollar text rfl (congrArg (· :: text) (Option.some.inj hhead))
  | case5 => rfl

/-! ## Escaped text -/

section

variable {env : String → String} {source rest : List Char} {piece : Piece}

theorem valueFrom?_of_piece (h : piece? source = some (piece, rest)) :
    valueFrom? env source = (valueFrom? env rest).map (piece.value env ++ ·) := by
  rw [valueFrom?]
  split
  · next hnone =>
    rw [h] at hnone
    cases hnone
  · next hsome =>
    obtain ⟨rfl, rfl⟩ := Prod.mk.inj (Option.some.inj (h.symm.trans hsome))
    rfl

/-- Nothing is left before the closing backquote. -/
theorem valueFrom?_close : valueFrom? env ['\x60'] = some [] := by
  rw [valueFrom?]
  rfl

/-- An escape of a character that no escape begins with, and that ends no line, stands for it. -/
theorem valueFrom?_escaped {c : Char} (h : c = '\\' ∨ c = '\x60' ∨ c = '$') (rest : List Char) :
    valueFrom? env ('\\' :: c :: rest) = (valueFrom? env rest).map (c :: ·) := by
  have hpiece : piece? ('\\' :: c :: rest) = some (.text [c], rest) := by
    rcases h with rfl | rfl | rfl <;> rfl
  exact valueFrom?_of_piece hpiece

/-- A character without a meaning of its own stands for itself, and so does a dollar sign without
    a brace after it. -/
theorem valueFrom?_plain {c : Char} (hslash : c ≠ '\\') (hquote : c ≠ '\x60') (hreturn : c ≠ '\r')
    (hdollar : c = '$' → rest.head? ≠ some '\x7b') :
    valueFrom? env (c :: rest) = (valueFrom? env rest).map (c :: ·) := by
  have hpiece : piece? (c :: rest) = some (.text [c], rest) := by
    unfold piece?
    split
    · next heq => cases heq
    · next heq => exact absurd (List.cons.inj heq).1 hslash
    · next heq =>
      obtain ⟨rfl, rfl⟩ := List.cons.inj heq
      exact absurd rfl (hdollar rfl)
    · next heq => exact absurd (List.cons.inj heq).1 hreturn
    · next heq =>
      obtain ⟨rfl, rfl⟩ := List.cons.inj heq
      rw [if_neg hquote, if_neg hreturn]
  exact valueFrom?_of_piece hpiece

/-- The substitution of a name has its value. -/
theorem valueFrom?_substitution {name : String} (h : Text.isIdentifier name = true)
    (rest : List Char) :
    valueFrom? env ('$' :: '\x7b' :: (name.toList ++ '\x7d' :: rest)) =
      (valueFrom? env rest).map ((env name).toList ++ ·) := by
  have hchars : ∀ c ∈ name.toList, (c != '\x7d') = true := by
    intro c hc
    have hname := List.all_eq_true.mp (Text.isAlphanumeric_of_isIdentifier h) c hc
    refine bne_iff_ne.mpr ?_
    rintro rfl
    exact absurd hname (by decide)
  have htake : (name.toList ++ '\x7d' :: rest).takeWhile (· != '\x7d') = name.toList := by
    rw [List.takeWhile_append_of_pos hchars, List.takeWhile_cons_of_neg (by decide),
      List.append_nil]
  have hdrop : (name.toList ++ '\x7d' :: rest).dropWhile (· != '\x7d') = '\x7d' :: rest := by
    rw [List.dropWhile_append_of_pos hchars, List.dropWhile_cons_of_neg (by decide)]
  have hpiece : piece? ('$' :: '\x7b' :: (name.toList ++ '\x7d' :: rest)) =
      some (.substitution name, rest) := by
    change substitution? _ = _
    unfold substitution?
    dsimp only
    rw [htake, hdrop, String.ofList_toList]
    dsimp only
    rw [if_pos h]
  exact valueFrom?_of_piece hpiece

/-- Escaping puts nothing before a brace at the start. -/
theorem head?_escapeTemplate {text : List Char}
    (h : (PathPart.escapeTemplate text).head? = some '\x7b') : text.head? = some '\x7b' := by
  unfold PathPart.escapeTemplate at h
  split at h
  · cases h
  · cases h
  · cases h
  · exact h
  · exact h

/-- Escaped text stands for the text, if nothing after it makes a substitution of its end. -/
theorem valueFrom?_escapeTemplate {text : List Char} (hreturn : '\r' ∉ text)
    (hrest : rest.head? ≠ some '\x7b') :
    valueFrom? env (PathPart.escapeTemplate text ++ rest) =
      (valueFrom? env rest).map (text ++ ·) := by
  fun_induction PathPart.escapeTemplate text with
  | case1 text ih =>
    rw [List.cons_append, List.cons_append, valueFrom?_escaped (.inl rfl),
      ih (List.not_mem_of_not_mem_cons hreturn), Option.map_map]
    rfl
  | case2 text ih =>
    rw [List.cons_append, List.cons_append, valueFrom?_escaped (.inr (.inl rfl)),
      ih (List.not_mem_of_not_mem_cons hreturn), Option.map_map]
    rfl
  | case3 text ih =>
    have hbrace : valueFrom? env ('\x7b' :: (PathPart.escapeTemplate text ++ rest)) =
        (valueFrom? env (PathPart.escapeTemplate text ++ rest)).map ('\x7b' :: ·) :=
      valueFrom?_plain (by decide) (by decide) (by decide) (fun h => absurd h (by decide))
    rw [List.cons_append, List.cons_append, List.cons_append,
      valueFrom?_escaped (.inr (.inr rfl)), hbrace,
      ih (List.not_mem_of_not_mem_cons (List.not_mem_of_not_mem_cons hreturn)), Option.map_map,
      Option.map_map]
    rfl
  | case4 c text hslash hquote hdollar ih =>
    have hc : c ≠ '\r' := fun h => hreturn (h ▸ List.mem_cons_self ..)
    -- What comes after a dollar sign is no brace: not in the text, and not after its end.
    have hbrace : c = '$' → (PathPart.escapeTemplate text ++ rest).head? ≠ some '\x7b' := by
      intro h hhead
      rw [List.head?_append] at hhead
      cases hfirst : (PathPart.escapeTemplate text).head? with
      | none =>
        rw [hfirst] at hhead
        exact hrest hhead
      | some first =>
        rw [hfirst] at hhead
        obtain ⟨tail, htail⟩ := List.head?_eq_some_iff.mp
          (head?_escapeTemplate (hfirst.trans hhead))
        exact hdollar tail h htail
    rw [List.cons_append, valueFrom?_plain hslash hquote hc hbrace,
      ih (List.not_mem_of_not_mem_cons hreturn), Option.map_map]
    rfl
  | case5 => exact Option.map_id'.symm

end

end TypedClient.Template
