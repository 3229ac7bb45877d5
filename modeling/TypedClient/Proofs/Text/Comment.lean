/-
  TypedClient.Proofs.Text.Comment

  Documentation comments are closed by their last line and by nothing before it.  A `*/` is a pair
  of neighbours, and every way a comment is put together or laid out again keeps the pairs apart:
  the lines are put between blanks and line feeds, which are neither star nor slash, and within a
  line each pair has been broken.
-/
import TypedClient.Proofs.Text.Pieces

namespace TypedClient.Text

/-! ## Counting the ends of comments -/

/-- Number of places at which `*/` stands. -/
def closers (chars : List Char) : Nat := (chars.zip chars.tail).count ('*', '/')

section

variable {c : Char} {front back : List Char}

@[simp] theorem closers_nil : closers [] = 0 := rfl

theorem closers_pair (rest : List Char) :
    closers ('*' :: '/' :: rest) = closers ('/' :: rest) + 1 := by
  simp [closers]

theorem closers_cons {d : Char} (rest : List Char) (h : (c, d) ≠ ('*', '/')) :
    closers (c :: d :: rest) = closers (d :: rest) := by
  simp [closers, h]

/-- Only a star can start a pair. -/
theorem closers_cons_of_ne (rest : List Char) (h : c ≠ '*') :
    closers (c :: rest) = closers rest := by
  cases rest with
  | nil => rfl
  | cons d rest => exact closers_cons rest fun heq => h (Prod.mk.inj heq).1

/-- A character that is neither star nor slash keeps apart what stands on its sides. -/
theorem closers_append_cons (hstar : c ≠ '*') (hslash : c ≠ '/') :
    closers (front ++ c :: back) = closers front + closers back := by
  induction front with
  | nil => rw [List.nil_append, closers_cons_of_ne back hstar, closers_nil, Nat.zero_add]
  | cons first front ih =>
    cases front with
    | nil =>
      rw [List.singleton_append, closers_cons _ fun heq => hslash (Prod.mk.inj heq).2,
        closers_cons_of_ne back hstar]
      exact (Nat.zero_add _).symm
    | cons second front =>
      rw [List.cons_append] at ih
      rw [List.cons_append, List.cons_append]
      by_cases hpair : (first, second) = ('*', '/')
      · obtain ⟨rfl, rfl⟩ := Prod.mk.inj hpair
        rw [closers_pair, closers_pair, ih]
        omega
      · rw [closers_cons _ hpair, closers_cons _ hpair, ih]

theorem closers_concat (hstar : c ≠ '*') (hslash : c ≠ '/') :
    closers (front ++ [c]) = closers front := closers_append_cons hstar hslash

/-! ## Comments -/

/-- A line with broken pairs begins as it did, so that no pair forms with what stands before. -/
theorem head?_breakClosers (line : List Char) : (breakClosers line).head? = line.head? := by
  fun_cases breakClosers line <;> rfl

/-- No pair is left in a line, and breaking one makes no other. -/
theorem closers_breakClosers (line : List Char) : closers (breakClosers line) = 0 := by
  fun_induction breakClosers line with
  | case1 rest ih =>
    rw [closers_cons _ (by decide), closers_cons_of_ne _ (by decide),
      closers_cons_of_ne _ (by decide), ih]
  | case2 c rest hpair ih =>
    cases hbroken : breakClosers rest with
    | nil => rfl
    | cons d broken =>
      rw [hbroken] at ih
      refine (closers_cons broken fun heq => ?_).trans ih
      obtain ⟨rfl, rfl⟩ := Prod.mk.inj heq
      -- The rest would begin with a slash too, and the pair have been broken.
      have hhead := (head?_breakClosers rest).symm.trans (congrArg List.head? hbroken)
      obtain ⟨tail, rfl⟩ := List.head?_eq_some_iff.mp hhead
      exact hpair tail rfl rfl
  | case3 => rfl

/-- The lines of a comment have no pair, and keep none with what follows them. -/
theorem closers_commentLines (lines : List String) (after : List Char) :
    closers (lines.flatMap (fun line => (commentLine line).toList) ++ after) = closers after := by
  induction lines with
  | nil => rfl
  | cons line lines ih =>
    have hline : (commentLine line).toList =
        '*' :: ' ' :: (breakClosers line.toList ++ ['\n']) := by
      simp [commentLine]
    rw [List.flatMap_cons, hline, List.cons_append, List.cons_append, List.cons_append,
      List.cons_append, List.append_assoc, List.append_assoc, List.singleton_append,
      closers_cons _ (by decide), closers_cons_of_ne _ (by decide),
      closers_append_cons (by decide) (by decide), closers_breakClosers, ih, Nat.zero_add]

end

/-! ## Indentation -/

section

variable {width : Nat} {line source : List Char}

theorem linesFrom_nil_eq_nil_iff : linesFrom [] source = [] ↔ source = [] := by
  refine ⟨fun h => ?_, fun h => by rw [h]; rfl⟩
  -- A line that has begun is put out, at the latest at the end of the text.
  have hbegun : ∀ (source : List Char) (line : List Char), line ≠ [] →
      linesFrom line source ≠ [] := by
    intro source
    induction source with
    | nil =>
      intro line hline
      rw [linesFrom, if_neg fun hempty => hline (List.isEmpty_iff.mp hempty)]
      exact List.cons_ne_nil _ _
    | cons c source ih =>
      intro line hline
      by_cases hbreak : c = '\n'
      · rw [hbreak, linesFrom]
        exact List.cons_ne_nil _ _
      · rw [linesFrom.eq_3 _ _ _ hbreak]
        exact ih _ (List.cons_ne_nil _ _)
  cases source with
  | nil => rfl
  | cons c source =>
    by_cases hbreak : c = '\n'
    · rw [hbreak, linesFrom] at h
      cases h
    · rw [linesFrom.eq_3 _ _ _ hbreak] at h
      exact absurd h (hbegun source _ (List.cons_ne_nil _ _))

/-- A line that is not the last one is put out before a line feed. -/
theorem indentFrom_break_of_ne_nil (h : source ≠ []) :
    indentFrom width line ('\n' :: source) =
      indentChars width (dropReturn line).reverse ++ '\n' :: indentFrom width [] source := by
  unfold indentFrom
  rw [linesFrom, List.map_cons]
  cases hlines : linesFrom [] source with
  | nil => exact absurd (linesFrom_nil_eq_nil_iff.mp hlines) h
  | cons next later => simp

/-- The last line feed of a text is dropped. -/
theorem indentFrom_last_break :
    indentFrom width line ['\n'] = indentChars width (dropReturn line).reverse := by
  simp [indentFrom, linesFrom]

theorem closers_replicate_append (width : Nat) (chars : List Char) :
    closers (List.replicate width ' ' ++ chars) = closers chars := by
  induction width with
  | zero => rfl
  | succ width ih =>
    rw [List.replicate_succ, List.cons_append, closers_cons_of_ne _ (by decide), ih]

theorem closers_indentChars (width : Nat) (line : List Char) :
    closers (indentChars width line) = closers line := by
  unfold indentChars
  split
  · next hempty => rw [List.isEmpty_iff.mp hempty]
  · exact closers_replicate_append width line

theorem closers_reverse_dropReturn (line : List Char) :
    closers (dropReturn line).reverse = closers line.reverse := by
  unfold dropReturn
  split
  · rw [List.reverse_cons, closers_concat (by decide) (by decide)]
  · rfl

/-- Every pair of an indented text stood in the text, and no pair is lost. -/
theorem closers_indentFrom :
    closers (indentFrom width line source) = closers (line.reverse ++ source) := by
  induction source generalizing line with
  | nil => rw [indentFrom_nil, closers_indentChars, List.append_nil]
  | cons c source ih =>
    by_cases hbreak : c = '\n'
    · subst hbreak
      rw [closers_append_cons (by decide) (by decide)]
      by_cases hlast : source = []
      · rw [hlast, indentFrom_last_break, closers_indentChars, closers_reverse_dropReturn]
        rfl
      · rw [indentFrom_break_of_ne_nil hlast, closers_append_cons (by decide) (by decide),
          closers_indentChars, closers_reverse_dropReturn, ih, List.reverse_nil, List.nil_append]
    · rw [indentFrom_cons hbreak, ih, List.reverse_cons, List.append_assoc,
        List.singleton_append]

/-- Indentation neither makes nor loses an end of a comment. -/
theorem closers_indent (width : Nat) (text : String) :
    closers (indent width text).toList = closers text.toList := by
  rw [toList_indent, closers_indentFrom, List.reverse_nil, List.nil_append]

/-- An indented text ends with the end of its last line. -/
theorem indentFrom_closer (front : List Char) {ending : List Char}
    (hending : ending = [] ∨ ending = ['\n']) :
    ∃ body, indentFrom width line (front ++ '*' :: '/' :: ending) = body ++ ['*', '/'] := by
  induction front generalizing line with
  | nil =>
    -- The last line is the current one with the two characters, whether or not a line feed ends it.
    have hline : indentFrom width line ('*' :: '/' :: ending) =
        indentChars width (line.reverse ++ ['*', '/']) := by
      rw [indentFrom_cons (by decide), indentFrom_cons (by decide)]
      rcases hending with rfl | rfl
      · rw [indentFrom_nil, List.reverse_cons, List.reverse_cons, List.append_assoc]
        rfl
      · rw [indentFrom_last_break, dropReturn.eq_2 _ (by simp), List.reverse_cons,
          List.reverse_cons, List.append_assoc]
        rfl
    rw [List.nil_append, hline]
    refine ⟨List.replicate width ' ' ++ line.reverse, ?_⟩
    unfold indentChars
    rw [if_neg (by simp), List.append_assoc]
  | cons c front ih =>
    by_cases hbreak : c = '\n'
    · obtain ⟨body, hbody⟩ := @ih []
      subst hbreak
      rw [List.cons_append, indentFrom_break_of_ne_nil (by simp), hbody]
      exact ⟨_, (List.append_assoc _ ('\n' :: body) _).symm⟩
    · rw [List.cons_append, indentFrom_cons hbreak]
      exact ih

end

/-! ## Closed at the end -/

/-- A text indented by each of the widths in turn. -/
def indentAll (widths : List Nat) (text : String) : String :=
  widths.foldl (fun text width => indent width text) text

theorem indentAll_cons (width : Nat) (widths : List Nat) (text : String) :
    indentAll (width :: widths) text = indentAll widths (indent width text) := rfl

/-- The text has one `*/`, and nothing but `ending` comes after it. -/
structure ClosedAt (ending text : String) : Prop where
  once : closers text.toList = 1
  last : ∃ body, text = body ++ "*/" ++ ending

/-- An indented text that was closed at its end is closed at its end, without a line feed. -/
theorem ClosedAt.indent {ending text : String} (h : ClosedAt ending text)
    (hending : ending = "" ∨ ending = "\n") (width : Nat) : ClosedAt "" (indent width text) := by
  refine ⟨(closers_indent width text).trans h.once, ?_⟩
  obtain ⟨body, rfl⟩ := h.last
  have hchars : (body ++ "*/" ++ ending).toList =
      body.toList ++ '*' :: '/' :: ending.toList := by simp
  have hlast : ending.toList = [] ∨ ending.toList = ['\n'] := by
    rcases hending with rfl | rfl
    · exact Or.inl rfl
    · exact Or.inr rfl
  obtain ⟨inner, hinner⟩ := @indentFrom_closer width [] body.toList _ hlast
  refine ⟨String.ofList inner, ?_⟩
  rw [← String.toList_inj, toList_indent, hchars, hinner]
  simp

theorem ClosedAt.indentAll {text : String} (h : ClosedAt "" text) (widths : List Nat) :
    ClosedAt "" (indentAll widths text) := by
  induction widths generalizing text with
  | nil => exact h
  | cons width widths ih =>
    rw [indentAll_cons]
    exact ih (h.indent (Or.inl rfl) width)

/-- The comment for a text that says something. -/
theorem comment_of_trim_ne {text : String} (h : trim text ≠ "") :
    comment (some text) =
      "/**\n" ++ String.join ((lines (trim text)).map commentLine) ++ "*/\n" := by
  have hsome : nonEmpty? text = some (trim text) := by
    unfold nonEmpty?
    exact if_neg fun hempty => h (String.isEmpty_iff.mp hempty)
  simp only [comment, Option.bind_some, hsome]

theorem comment_of_trim_eq {text : String} (h : trim text = "") : comment (some text) = "" := by
  have hnone : nonEmpty? text = none := by
    unfold nonEmpty?
    exact if_pos (String.isEmpty_iff.mpr h)
  simp only [comment, Option.bind_some, hnone]

/-- No text closes its comment.  There is no comment just when nothing is left of the trimmed text.
    Otherwise the comment begins with `/**` and has one `*/`, which nothing but a line feed follows;
    and however often it is indented, and by whatever widths, it has one `*/`, at its very end. -/
theorem comment_closed_at_end (text : String) :
    (comment (some text) = "" ↔ trim text = "") ∧
    (trim text ≠ "" →
      (∃ rest, comment (some text) = "/**" ++ rest) ∧ ClosedAt "\n" (comment (some text)) ∧
      ∀ width widths, ClosedAt "" (indentAll (width :: widths) (comment (some text)))) := by
  have hclosed : trim text ≠ "" → ClosedAt "\n" (comment (some text)) := by
    intro htext
    have hend : "*/\n" = "*/" ++ "\n" := by decide
    rw [comment_of_trim_ne htext]
    refine ⟨?_, _, by rw [hend, ← String.append_assoc]⟩
    have hchars : ("/**\n" ++ String.join ((lines (trim text)).map commentLine) ++
        "*/\n").toList = '/' :: '*' :: '*' :: '\n' ::
          ((lines (trim text)).flatMap (fun line => (commentLine line).toList) ++
            ['*', '/', '\n']) := by
      simp [String.toList_join, List.flatMap_map]
    rw [hchars, closers_cons_of_ne _ (by decide), closers_cons _ (by decide),
      closers_cons _ (by decide), closers_cons_of_ne _ (by decide), closers_commentLines]
    decide
  refine ⟨⟨fun h => ?_, comment_of_trim_eq⟩, fun htext => ⟨?_, hclosed htext, ?_⟩⟩
  · refine Decidable.byContradiction fun htext => ?_
    obtain ⟨body, hbody⟩ := (hclosed htext).last
    rw [h] at hbody
    simpa using congrArg String.toList hbody
  · rw [comment_of_trim_ne htext]
    exact ⟨"\n" ++ String.join ((lines (trim text)).map commentLine) ++ "*/\n", by
      simp only [← String.append_assoc]
      rfl⟩
  · intro width widths
    have hfirst : ClosedAt "" (indent width (comment (some text))) :=
      (hclosed htext).indent (Or.inr rfl) width
    rw [indentAll_cons]
    exact hfirst.indentAll widths

/-- A text that would close its comment in many ways: at once, after a star, across a line end, and
    before a carriage return. -/
theorem closers_broken :
    comment (some " */ **/\n*\n/ *\r\n*/") =
        "/**\n* *\\/ **\\/\n* *\n* / *\n* *\\/\n*/\n" ∧
      ClosedAt "\n" (comment (some " */ **/\n*\n/ *\r\n*/")) ∧
      ClosedAt "" (indentAll [2, 0, 4] (comment (some " */ **/\n*\n/ *\r\n*/"))) := by
  have htrim : trim " */ **/\n*\n/ *\r\n*/" ≠ "" := by decide +kernel
  obtain ⟨-, hclosed⟩ := comment_closed_at_end " */ **/\n*\n/ *\r\n*/"
  obtain ⟨-, hcomment, hindented⟩ := hclosed htrim
  exact ⟨by decide +kernel, hcomment, hindented 2 [0, 4]⟩

end TypedClient.Text
