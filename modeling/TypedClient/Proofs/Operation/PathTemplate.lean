/-
  TypedClient.Proofs.Operation.PathTemplate

  The template literal of a path denotes the path: with values for the names that it substitutes it
  stands for the path with these values in the places of its placeholders.  A placeholder is told
  from the text alone, apart from the loop that looks for it: from an opening brace to the next
  closing one.
-/
import TypedClient.Proofs.Text.Template

namespace TypedClient.PathPart

/-! ## Placeholders -/

/-- A placeholder of a path: the text since the one before it, and what stands in its braces. -/
structure Placeholder where
  before : List Char
  name : List Char

/-- The placeholders of a text, from left to right, and the text after the last of them, in which
    no brace that opens is closed. -/
inductive Placeholders : List Char → List Placeholder → List Char → Prop
  | last {text : List Char}
      (unclosed : ∀ before after, text = before ++ '\x7b' :: after → '\x7d' ∉ after) :
      Placeholders text [] text
  | next (placeholder : Placeholder) {rest : List Char} {placeholders : List Placeholder}
      {text : List Char} (first : '\x7b' ∉ placeholder.before) (closed : '\x7d' ∉ placeholder.name)
      (others : Placeholders rest placeholders text) :
      Placeholders (placeholder.before ++ '\x7b' :: (placeholder.name ++ '\x7d' :: rest))
        (placeholder :: placeholders) text

/-- Every text has its placeholders. -/
theorem exists_placeholders (text : List Char) :
    ∃ placeholders last, Placeholders text placeholders last := by
  -- What is left after a placeholder is shorter.
  induction hlength : text.length using Nat.strongRecOn generalizing text with
  | _ n ih =>
    by_cases hopen : '\x7b' ∈ text
    · obtain ⟨before, after, rfl, hbefore⟩ := List.eq_append_cons_of_mem hopen
      by_cases hclose : '\x7d' ∈ after
      · obtain ⟨name, rest, rfl, hname⟩ := List.eq_append_cons_of_mem hclose
        have hshorter : rest.length < n := by
          rw [← hlength]
          simp only [List.length_append, List.length_cons]
          omega
        obtain ⟨placeholders, last, hrest⟩ := ih rest.length hshorter rest rfl
        exact ⟨⟨before, name⟩ :: placeholders, last, .next ⟨before, name⟩ hbefore hname hrest⟩
      · refine ⟨[], _, .last fun before' after' heq hmem => hclose ?_⟩
        -- A later opening brace has less text after it.
        rcases List.append_eq_append_iff.mp heq with ⟨more, -, hmore⟩ | ⟨more, rfl, hmore⟩
        · cases more with
          | nil => exact (List.cons.inj hmore).2 ▸ hmem
          | cons c more =>
            rw [(List.cons.inj hmore).2]
            exact List.mem_append_right _ (List.mem_cons_of_mem _ hmem)
        · cases more with
          | nil => exact (List.cons.inj hmore).2 ▸ hmem
          | cons c more =>
            rw [← (List.cons.inj hmore).1] at hbefore
            exact absurd (List.mem_append_right _ (List.mem_cons_self ..)) hbefore
    · refine ⟨[], text, .last fun before after heq => ?_⟩
      exact absurd (heq ▸ List.mem_append_right _ (List.mem_cons_self ..)) hopen

/-- What stands outside of the placeholders stands in the text. -/
theorem Placeholders.outside {text last : List Char} {placeholders : List Placeholder}
    (h : Placeholders text placeholders last) {c : Char} (hc : c ∉ text) :
    (∀ placeholder ∈ placeholders, c ∉ placeholder.before) ∧ c ∉ last := by
  induction h with
  | last => exact ⟨fun _ hmem => absurd hmem List.not_mem_nil, hc⟩
  | next placeholder first closed others ih =>
    simp only [List.mem_append, List.mem_cons, not_or] at hc
    obtain ⟨hbefore, -, -, -, hrest⟩ := hc
    obtain ⟨hothers, hlast⟩ := ih hrest
    exact ⟨List.forall_mem_cons.mpr ⟨hbefore, hothers⟩, hlast⟩

/-- The text with `values` in the places of its placeholders. -/
def filled : List Placeholder → List String → List Char → List Char
  | placeholder :: placeholders, value :: values, last =>
    placeholder.before ++ value.toList ++ filled placeholders values last
  | _, _, last => last

/-- Names of the parameters of a path of which `index` have been read before these. -/
def placeholderNames : Nat → List Placeholder → List String
  | _, [] => []
  | index, placeholder :: placeholders =>
    parameterName index placeholder.name :: placeholderNames (index + 1) placeholders

theorem length_placeholderNames (index : Nat) (placeholders : List Placeholder) :
    (placeholderNames index placeholders).length = placeholders.length := by
  induction placeholders generalizing index with
  | nil => rfl
  | cons placeholder placeholders ih =>
    rw [placeholderNames, List.length_cons, List.length_cons, ih]

/-- The name of a parameter is one that the generated language takes as it is. -/
theorem isIdentifier_parameterName (index : Nat) (name : List Char) :
    Text.isIdentifier (parameterName index name) = true := by
  unfold parameterName
  dsimp only
  split
  · have hdigits : Text.isAlphanumeric (toString index) = true :=
      Text.isAlphanumeric_of_all_isDigit (Text.all_isDigit_toString index)
    rw [Text.isIdentifier_append (by decide), hdigits]
    decide +kernel
  · next hname =>
    rw [Text.isIdentifier_camelize]
    by_contra hletter
    rw [Text.camelize_of_not_hasLetter (Bool.not_eq_true _ ▸ hletter)] at hname
    exact hname rfl

/-! ## The parts of a path -/

/-- Parts with these placeholders and the text after them. -/
def partsFrom (index : Nat) : List Placeholder → List Char → List PathPart
  | [], last => ofText last
  | placeholder :: placeholders, last =>
    ofText placeholder.before ++ .parameter (parameterName index placeholder.name) ::
      partsFrom (index + 1) placeholders last

/-- Text without an opening brace is held. -/
theorem split_text (index : Nat) (text : List Char) {before : List Char}
    (h : '\x7b' ∉ before) (rest : List Char) :
    split index text none (before ++ rest) = split index (before.reverse ++ text) none rest := by
  induction before generalizing text with
  | nil => rfl
  | cons c before ih =>
    rw [List.mem_cons, not_or] at h
    rw [List.cons_append, split]
    rw [if_neg (Ne.symm h.1), ih _ h.2, List.reverse_cons, List.append_assoc]
    rfl

/-- A name without a closing brace is held. -/
theorem split_name (index : Nat) (text held : List Char) {name : List Char}
    (h : '\x7d' ∉ name) (rest : List Char) :
    split index text (some held) (name ++ rest) =
      split index text (some (name.reverse ++ held)) rest := by
  induction name generalizing held with
  | nil => rfl
  | cons c name ih =>
    rw [List.mem_cons, not_or] at h
    rw [List.cons_append, split]
    rw [if_neg (Ne.symm h.1), ih _ h.2, List.reverse_cons, List.append_assoc]
    rfl

/-- Splitting a path finds its placeholders. -/
theorem split_eq_partsFrom {text last : List Char} {placeholders : List Placeholder}
    (h : Placeholders text placeholders last) (index : Nat) :
    split index [] none text = partsFrom index placeholders last := by
  induction h generalizing index with
  | @last text unclosed =>
    rw [partsFrom]
    by_cases hopen : '\x7b' ∈ text
    · obtain ⟨before, after, rfl, hbefore⟩ := List.eq_append_cons_of_mem hopen
      have hafter := split_name index (before.reverse ++ []) [] (unclosed before after rfl) []
      rw [List.append_nil after] at hafter
      rw [split_text index [] hbefore, split]
      rw [if_pos rfl, hafter, split]
      simp
    · have htext := split_text index [] hopen []
      rw [List.append_nil] at htext
      rw [htext, split]
      simp
  | @next placeholder rest placeholders last first closed others ih =>
    rw [split_text index [] first, split]
    rw [if_pos rfl, split_name index _ [] closed, split]
    rw [if_pos rfl, ih, partsFrom]
    simp

theorem ofPath_eq_partsFrom {path : String} {placeholders : List Placeholder} {last : List Char}
    (h : Placeholders path.toList placeholders last) :
    ofPath path = partsFrom 0 placeholders last :=
  split_eq_partsFrom h 0

/-- A text is no parameter. -/
theorem filterMap_ofText (text : List Char) : (ofText text).filterMap parameter? = [] := by
  unfold ofText
  split <;> rfl

/-- The parameters are the placeholders. -/
theorem filterMap_partsFrom (index : Nat) (placeholders : List Placeholder) (last : List Char) :
    (partsFrom index placeholders last).filterMap parameter? =
      placeholderNames index placeholders := by
  induction placeholders generalizing index with
  | nil => exact filterMap_ofText last
  | cons placeholder placeholders ih =>
    rw [partsFrom, List.filterMap_append, filterMap_ofText, List.nil_append, List.filterMap_cons,
      ih]
    rfl

/-! ## The literal of a path -/

/-- Characters of parts inside a literal. -/
def rendered (parts : List PathPart) : List Char := parts.flatMap (·.render.toList)

theorem rendered_ofText (text : List Char) : rendered (ofText text) = escapeTemplate text := by
  unfold rendered ofText
  split
  · next h => rw [List.isEmpty_iff.mp h, List.flatMap_nil, escapeTemplate]
  · rw [List.flatMap_singleton, render, String.toList_ofList, String.toList_ofList]

theorem toList_join (texts : List String) :
    (String.join texts).toList = texts.flatMap String.toList := by
  induction texts with
  | nil => rfl
  | cons text texts ih => rw [String.join_cons, String.toList_append, ih, List.flatMap_cons]

theorem toList_renderAll (parts : List PathPart) :
    (renderAll parts).toList = '\x60' :: (rendered parts ++ ['\x60']) := by
  unfold renderAll
  rw [String.toList_append, String.toList_append, toList_join, List.flatMap_map]
  rfl

/-- Rendered placeholders have the values of their names, and the text between them is kept. -/
theorem valueFrom?_rendered (env : String → String) (placeholders : List Placeholder)
    {last : List Char} (index : Nat)
    (hreturn : ∀ placeholder ∈ placeholders, '\r' ∉ placeholder.before) (hlast : '\r' ∉ last) :
    Template.valueFrom? env (rendered (partsFrom index placeholders last) ++ ['\x60']) =
      some (filled placeholders ((placeholderNames index placeholders).map env) last) := by
  induction placeholders generalizing index with
  | nil =>
    rw [partsFrom, rendered_ofText, Template.valueFrom?_escapeTemplate hlast (by decide),
      Template.valueFrom?_close, Option.map_some, List.append_nil]
    rfl
  | cons placeholder placeholders ih =>
    have hname := isIdentifier_parameterName index placeholder.name
    have hrest := ih (index + 1) fun other hother => hreturn other (List.mem_cons_of_mem _ hother)
    have hparts : rendered (partsFrom index (placeholder :: placeholders) last) ++ ['\x60'] =
        escapeTemplate placeholder.before ++ '$' :: '\x7b' ::
          ((parameterName index placeholder.name).toList ++ '\x7d' ::
            (rendered (partsFrom (index + 1) placeholders last) ++ ['\x60'])) := by
      rw [partsFrom, rendered, List.flatMap_append, ← rendered, rendered_ofText, List.flatMap_cons,
        ← rendered, render, String.toList_append, String.toList_append]
      simp
    rw [hparts, Template.valueFrom?_escapeTemplate (hreturn placeholder (List.mem_cons_self ..))
      (by simp), Template.valueFrom?_substitution hname, hrest, placeholderNames]
    simp [filled]

/-- The literal of a path denotes the path.  Whatever values names have, the literal of a path
    without carriage returns stands for the path with the value of the `i`-th name that is read
    from it in the place of its `i`-th placeholder.  As many names are read as the path has
    placeholders, and a brace that is not closed stands for itself.  (A literal cannot hold a
    carriage return of its own: it is read as a line feed.) -/
theorem value?_renderAll_ofPath (path : String) (hreturn : '\r' ∉ path.toList)
    (env : String → String) :
    (∃ placeholders last, Placeholders path.toList placeholders last) ∧
    ∀ placeholders last, Placeholders path.toList placeholders last →
      ((ofPath path).filterMap parameter?).length = placeholders.length ∧
      Template.value? env (renderAll (ofPath path)) = some (String.ofList
        (filled placeholders (((ofPath path).filterMap parameter?).map env) last)) := by
  refine ⟨exists_placeholders path.toList, fun placeholders last h => ?_⟩
  obtain ⟨hbefore, hlast⟩ := h.outside hreturn
  rw [ofPath_eq_partsFrom h, filterMap_partsFrom]
  refine ⟨length_placeholderNames 0 placeholders, ?_⟩
  unfold Template.value?
  rw [toList_renderAll]
  change (Template.valueFrom? env _).map String.ofList = _
  rw [valueFrom?_rendered env placeholders 0 hbefore hlast]
  rfl

/-- A path that holds what has a meaning of its own in a literal: a dollar sign before a
    placeholder, a backslash before a backquote, a placeholder without letters, and what would open
    a substitution if it were closed. -/
def awkwardPath : String := "/$\x7bpet-id\x7d\\\x60\x7b9\x7d$\x7b"

theorem value?_renderAll_awkwardPath :
    '\r' ∉ awkwardPath.toList ∧ (ofPath awkwardPath).filterMap parameter? = ["petId", "param1"] ∧
    Template.value? (fun name => "<" ++ name ++ ">") (renderAll (ofPath awkwardPath)) =
      some "/$<petId>\\\x60<param1>$\x7b" := by
  have hplaceholders : Placeholders awkwardPath.toList
      [⟨['/', '$'], "pet-id".toList⟩, ⟨['\\', '\x60'], ['9']⟩] ['$', '\x7b'] := by
    refine .next ⟨['/', '$'], "pet-id".toList⟩ (by decide) (by decide +kernel)
      (.next ⟨['\\', '\x60'], ['9']⟩ (by decide) (by decide) (.last ?_))
    intro before after heq hclose
    have hmem := List.mem_append_right before (List.mem_cons_of_mem '\x7b' hclose)
    exact absurd (heq ▸ hmem) (by decide)
  refine ⟨by decide +kernel, by decide +kernel, ?_⟩
  rw [((value?_renderAll_ofPath awkwardPath (by decide +kernel) _).2 _ _ hplaceholders).2]
  decide +kernel

end TypedClient.PathPart
