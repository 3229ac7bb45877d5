/-
  TypedClient.Yaml.Token.Gap

  Blanks and line breaks between two pieces of a scalar that may run over several lines. Blanks
  within a line stay as they are, a single line break becomes a space, and further breaks stay.
-/
import TypedClient.Yaml.Cursor

namespace TypedClient.Yaml

/-- What was passed since the last character of a scalar. Lists are in reverse. -/
structure Gap where
  /-- Blanks before the first line break. -/
  blanks : List Char
  /-- Has a line ended? -/
  folded : Bool
  /-- What the first line break leaves; nothing when it was escaped. -/
  first : Option Char
  /-- What further line breaks leave. -/
  others : List Char

namespace Gap

/-- Nothing passed yet. -/
def empty : Gap := ⟨[], false, none, []⟩

/-- An escaped line break. -/
def escaped : Gap := ⟨[], true, none, []⟩

/-- What the gap leaves in the scalar, in reverse. -/
def text (gap : Gap) : List Char :=
  if !gap.folded then gap.blanks
  else match gap.first with
    | some '\n' => if gap.others.isEmpty then [' '] else gap.others
    | some c => gap.others ++ [c]
    | none => gap.others

/-- Adds a line break. -/
def addBreak (c : Char) (gap : Gap) : Gap :=
  if gap.folded then { gap with others := breakText c :: gap.others }
  else ⟨[], true, some (breakText c), []⟩

/-- Adds a blank; at the start of a line it is left out. -/
def addBlank (c : Char) (gap : Gap) : Gap :=
  if gap.folded then gap else { gap with blanks := c :: gap.blanks }

end Gap

/-- Passes blanks and line breaks. A tab may not stand in the first `least` columns of a line
    that the gap begins. -/
def readGap (least : Nat) : Nat → Gap → Cursor → Option (Gap × Cursor)
  | 0, _, _ => none
  | fuel + 1, gap, cursor =>
    match cursor.rest with
    | [] => some (gap, cursor)
    | c :: _ =>
      if isBlank c then
        if gap.folded && cursor.column < least && c == '\t' then none
        else readGap least fuel (gap.addBlank c) (cursor.skip 1)
      else if isBreak c then readGap least fuel (gap.addBreak c) cursor.nextLine
      else some (gap, cursor)

end TypedClient.Yaml
