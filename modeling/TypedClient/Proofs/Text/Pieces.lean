/-
  TypedClient.Proofs.Text.Pieces

  Pieces of a text that stand in it in some order, apart from each other, with anything between
  them.  They do so in a text that is put together from others, and in an indented text if they are
  on single lines.
-/
import TypedClient.Text.Lines

namespace TypedClient.Text

/-- A source has some pieces in their order, one after the other. -/
inductive HasPieces : List Char → List String → Prop
  | last (between : List Char) : HasPieces between []
  | next (between : List Char) (piece : String) {rest : List Char} {pieces : List String}
      (later : HasPieces rest pieces) :
      HasPieces (between ++ (piece.toList ++ rest)) (piece :: pieces)

section

variable {source first second : List Char} {pieces others : List String}

/-- What stands in front makes no difference. -/
theorem HasPieces.prepend (h : HasPieces source pieces) (front : List Char) :
    HasPieces (front ++ source) pieces := by
  cases h with
  | last between => exact .last _
  | next between piece later =>
    rw [← List.append_assoc]
    exact .next _ piece later

theorem HasPieces.append (h : HasPieces first pieces) (hsecond : HasPieces second others) :
    HasPieces (first ++ second) (pieces ++ others) := by
  induction h with
  | last between => exact hsecond.prepend between
  | next between piece later ih =>
    rw [List.append_assoc, List.append_assoc]
    exact .next between piece ih

/-- A text is a piece of itself. -/
theorem hasPieces_self (piece : String) : HasPieces piece.toList [piece] := by
  have h : HasPieces ([] ++ (piece.toList ++ [])) [piece] := .next [] piece (.last [])
  rwa [List.nil_append, List.append_nil] at h

end

/-- A text has pieces if its characters do. -/
abbrev Has (text : String) (pieces : List String) : Prop := HasPieces text.toList pieces

section

variable {first second : String} {pieces others : List String}

theorem Has.append (h : Has first pieces) (hsecond : Has second others) :
    Has (first ++ second) (pieces ++ others) := by
  unfold Has
  rw [String.toList_append]
  exact HasPieces.append h hsecond

theorem Has.prepend (h : Has second pieces) (front : String) : Has (front ++ second) pieces := by
  have hfront : Has front [] := .last _
  simpa only [List.nil_append] using hfront.append h

theorem Has.postpend (h : Has first pieces) (back : String) : Has (first ++ back) pieces := by
  have hback : Has back [] := .last _
  simpa only [List.append_nil] using h.append hback

end

/-- Texts have pieces if each of them has its own, one after the other. -/
inductive AllHave : List String → List String → Prop
  | nil : AllHave [] []
  | cons {text : String} {texts pieces others : List String} (first : Has text pieces)
      (later : AllHave texts others) : AllHave (text :: texts) (pieces ++ others)

section

variable {texts later pieces others : List String}

theorem allHave_nil (texts : List String) : AllHave texts [] := by
  induction texts with
  | nil => exact .nil
  | cons text texts ih => exact .cons (.last _) ih

theorem Has.alone {text : String} (h : Has text pieces) : AllHave [text] pieces := by
  have hall : AllHave [text] (pieces ++ []) := .cons h .nil
  rwa [List.append_nil] at hall

theorem AllHave.append (h : AllHave texts pieces) (hlater : AllHave later others) :
    AllHave (texts ++ later) (pieces ++ others) := by
  induction h with
  | nil => exact hlater
  | cons first _ ih =>
    rw [List.append_assoc]
    exact .cons first ih

theorem allHave_map {α : Type} {items : List α} {text : α → String} {pieces : α → List String}
    (h : ∀ item ∈ items, Has (text item) (pieces item)) :
    AllHave (items.map text) (items.flatMap pieces) := by
  induction items with
  | nil => exact .nil
  | cons item items ih =>
    obtain ⟨hitem, hitems⟩ := List.forall_mem_cons.mp h
    rw [List.map_cons, List.flatMap_cons]
    exact .cons hitem (ih hitems)

/-- Texts that are joined have the pieces of all of them. -/
theorem AllHave.intercalate (h : AllHave texts pieces) (separator : String) :
    Has (separator.intercalate texts) pieces := by
  induction h with
  | nil => exact .last _
  | @cons text texts pieces others first later ih =>
    by_cases hempty : texts = []
    · subst hempty
      cases later
      rw [String.intercalate_singleton, List.append_nil]
      exact first
    · rw [String.intercalate_cons_of_ne_nil hempty, String.append_assoc]
      exact first.append (ih.prepend separator)

end

/-! ## Indentation -/

/-- Characters of a line that is indented. -/
def indentChars (width : Nat) (line : List Char) : List Char :=
  if line.isEmpty then [] else List.replicate width ' ' ++ line

/-- What is left of an indented text when the current line, in reverse, is `line`. -/
def indentFrom (width : Nat) (line source : List Char) : List Char :=
  ['\n'].intercalate ((linesFrom line source).map (indentChars width))

@[simp] theorem indentChars_nil (width : Nat) : indentChars width [] = [] := rfl

theorem toList_indent (width : Nat) (text : String) :
    (indent width text).toList = indentFrom width [] text.toList := by
  have hline : ∀ line : List Char,
      (indentLine width (String.ofList line)).toList = indentChars width line := by
    intro line
    unfold indentLine indentChars
    cases line with
    | nil => rfl
    | cons c rest =>
      have hsome : (String.ofList (c :: rest)).isEmpty = false := by simp
      rw [hsome]
      simp
  unfold indent indentFrom lines
  rw [String.toList_intercalate, List.map_map, List.map_map]
  exact congrArg _ (List.map_congr_left fun line _ => hline line)

section

variable {width : Nat} {line source : List Char}

theorem indentFrom_nil : indentFrom width line [] = indentChars width line.reverse := by
  cases line with
  | nil => rfl
  | cons c rest => simp [indentFrom, linesFrom]

theorem indentFrom_cons {c : Char} (h : c ≠ '\n') :
    indentFrom width line (c :: source) = indentFrom width (c :: line) source := by
  unfold indentFrom
  rw [linesFrom]
  exact h

/-- A line feed ends the line, which loses a carriage return. -/
theorem indentFrom_break : ∃ between, indentFrom width line ('\n' :: source) =
    indentChars width (dropReturn line).reverse ++ (between ++ indentFrom width [] source) := by
  unfold indentFrom
  rw [linesFrom, List.map_cons]
  cases (linesFrom [] source).map (indentChars width) with
  | nil => exact ⟨[], by simp⟩
  | cons next later => exact ⟨['\n'], by simp⟩

/-- A line that goes on is indented as before. -/
theorem indentChars_append (front between piece : List Char) : ∃ code,
    indentChars width (front ++ (between ++ piece)) =
      indentChars width front ++ (code ++ piece) := by
  unfold indentChars
  cases front with
  | cons c front => exact ⟨between, by simp⟩
  | nil =>
    cases hall : between ++ piece with
    | nil =>
      obtain ⟨rfl, rfl⟩ := List.append_eq_nil_iff.mp hall
      exact ⟨[], rfl⟩
    | cons c rest => exact ⟨List.replicate width ' ' ++ between, by simp [hall]⟩

theorem dropReturn_append {kept : List Char} (hkept : kept.head? ≠ some '\r')
    (extra : List Char) : ∃ left, dropReturn (extra ++ kept) = left ++ kept := by
  unfold dropReturn
  split
  · next line hline =>
    cases extra with
    | nil =>
      rw [List.nil_append] at hline
      exact absurd (congrArg List.head? hline) hkept
    | cons c extra => exact ⟨extra, (List.cons.inj hline).2.symm⟩
  · exact ⟨extra, rfl⟩

/-- What is kept at the front of the current line stays there while more of the source is read:
    either the line goes on with it, or it has been put out before the line that follows. -/
theorem indentFrom_append {kept : List Char} (hkept : kept.head? ≠ some '\r')
    (extra between after : List Char) :
    (∃ later, indentFrom width (extra ++ kept) (between ++ after) =
      indentFrom width (later ++ kept) after) ∨
    ∃ code later, indentFrom width (extra ++ kept) (between ++ after) =
      indentChars width kept.reverse ++ (code ++ indentFrom width later after) := by
  induction between generalizing extra kept with
  | nil => exact .inl ⟨extra, rfl⟩
  | cons c between ih =>
    by_cases hbreak : c = '\n'
    · subst hbreak
      right
      obtain ⟨lineEnd, hline⟩ := @indentFrom_break width (extra ++ kept) (between ++ after)
      obtain ⟨left, hleft⟩ := dropReturn_append hkept extra
      obtain ⟨code, hcode⟩ := @indentChars_append width kept.reverse left.reverse []
      have hout : indentFrom width (extra ++ kept) ('\n' :: between ++ after) =
          indentChars width kept.reverse ++
            (code ++ (lineEnd ++ indentFrom width [] (between ++ after))) := by
        rw [List.cons_append, hline, hleft, List.reverse_append]
        rw [List.append_nil, List.append_nil] at hcode
        rw [hcode, List.append_assoc]
      rw [hout]
      -- On the next line nothing is kept yet, so that it may start anyhow.
      have hnothing : ([] : List Char).head? ≠ some '\r' := nofun
      rcases ih hnothing [] with ⟨later, hlater⟩ | ⟨code', later, hlater⟩
      · refine ⟨code ++ lineEnd, later, ?_⟩
        rw [List.append_nil, List.append_nil] at hlater
        rw [hlater, List.append_assoc]
      · refine ⟨code ++ (lineEnd ++ code'), later, ?_⟩
        rw [List.append_nil, List.reverse_nil, indentChars_nil, List.nil_append] at hlater
        rw [hlater, List.append_assoc, List.append_assoc]
    · rw [List.cons_append, indentFrom_cons hbreak]
      exact ih hkept (c :: extra)

/-- A piece that a line of its own could have, and that does not end in a carriage return. -/
structure WithinLine (piece : String) : Prop where
  oneLine : '\n' ∉ piece.toList
  ends : ∃ front last, piece.toList = front ++ [last] ∧ last ≠ '\r'

/-- Reading a piece within a line keeps it at the front of the line. -/
theorem indentFrom_piece {piece : String} (h : WithinLine piece) :
    indentFrom width line (piece.toList ++ source) =
        indentFrom width (piece.toList.reverse ++ line) source ∧
      (piece.toList.reverse ++ line).head? ≠ some '\r' := by
  obtain ⟨hbreak, front, last, hlast, hreturn⟩ := h
  constructor
  · clear hlast
    generalize piece.toList = chars at hbreak
    induction chars generalizing line with
    | nil => rfl
    | cons c rest ih =>
      obtain ⟨hc, hrest⟩ := List.ne_and_not_mem_of_not_mem_cons hbreak
      rw [List.cons_append, indentFrom_cons hc.symm, ih hrest, List.reverse_cons,
        List.append_assoc, List.singleton_append]
  · rw [hlast, List.reverse_append]
    simpa using hreturn

/-- Indentation keeps pieces within lines, after what is kept of the current line. -/
theorem HasPieces.indentFrom {pieces : List String} (h : HasPieces source pieces)
    (hpieces : ∀ piece ∈ pieces, WithinLine piece) {kept : List Char}
    (hkept : kept.head? ≠ some '\r') (extra : List Char) :
    ∃ tail, indentFrom width (extra ++ kept) source = indentChars width kept.reverse ++ tail ∧
      HasPieces tail pieces := by
  induction h generalizing kept extra with
  | last between =>
    -- No piece is left, and any text will do after what is kept.
    rcases @indentFrom_append width kept hkept extra between [] with ⟨later, h⟩ | ⟨code, later, h⟩
    · obtain ⟨code, hcode⟩ := @indentChars_append width kept.reverse later.reverse []
      rw [List.append_nil] at h hcode
      rw [h, indentFrom_nil, List.reverse_append, hcode]
      exact ⟨_, rfl, .last _⟩
    · rw [List.append_nil] at h
      exact ⟨_, h, .last _⟩
  | @next between piece rest pieces later ih =>
    obtain ⟨hpiece, hrest⟩ := List.forall_mem_cons.mp hpieces
    -- Whatever is kept, the piece comes after it, and then what the rest has.
    have hnext : ∀ front kept : List Char, ∃ code,
        ∃ tail, Text.indentFrom width (front ++ kept) (piece.toList ++ rest) =
          indentChars width kept.reverse ++ (code ++ (piece.toList ++ tail)) ∧
        HasPieces tail pieces := by
      intro front kept
      obtain ⟨hread, hhead⟩ := @indentFrom_piece width (front ++ kept) rest piece hpiece
      obtain ⟨tail, htail, hhas⟩ := ih hrest hhead []
      obtain ⟨code, hcode⟩ := @indentChars_append width kept.reverse front.reverse piece.toList
      refine ⟨code, tail, ?_, hhas⟩
      rw [List.nil_append, List.reverse_append, List.reverse_append, List.reverse_reverse,
        List.append_assoc, hcode] at htail
      rw [hread, htail, List.append_assoc, List.append_assoc]
    rcases @indentFrom_append width kept hkept extra between (piece.toList ++ rest) with
      ⟨front, h⟩ | ⟨before, front, h⟩
    · obtain ⟨code, tail, htail, hhas⟩ := hnext front kept
      exact ⟨_, h.trans htail, .next code piece hhas⟩
    · obtain ⟨code, tail, htail, hhas⟩ := hnext front []
      rw [List.append_nil, List.reverse_nil, indentChars_nil, List.nil_append] at htail
      rw [htail, ← List.append_assoc before] at h
      exact ⟨_, h, .next (before ++ code) piece hhas⟩

/-- An indented text has the pieces of the text that are within lines. -/
theorem Has.indent {text : String} {pieces : List String} (h : Has text pieces)
    (hpieces : ∀ piece ∈ pieces, WithinLine piece) (width : Nat) :
    Has (indent width text) pieces := by
  have hnothing : ([] : List Char).head? ≠ some '\r' := nofun
  obtain ⟨tail, htail, hhas⟩ := @HasPieces.indentFrom width _ _ h hpieces [] hnothing []
  rw [List.append_nil, List.reverse_nil, indentChars_nil, List.nil_append] at htail
  unfold Has
  rwa [toList_indent, htail]

end

end TypedClient.Text
