/-
  TypedClient.Yaml.Cursor

  Characters of YAML text, and a position in such a text: what is left of it, and where that
  starts. Layout decides what YAML text means, so the line and the column go along with the rest.
-/

namespace TypedClient.Yaml

/-! ## Characters -/

/-- May a document hold the character? -/
def isAllowed (c : Char) : Bool :=
  c == '\t' || c == '\n' || c == '\r' || (' ' ≤ c && c ≤ '~') || c.toNat == 0x85 ||
    (0xA0 ≤ c.toNat && c.toNat != 0xFFFE && c.toNat != 0xFFFF)

/-- Does the character end a line? -/
def isBreak (c : Char) : Bool :=
  c == '\n' || c == '\r' || c.toNat == 0x85 || c.toNat == 0x2028 || c.toNat == 0x2029

/-- Space or tab. -/
def isBlank (c : Char) : Bool := c == ' ' || c == '\t'

/-- May the character stand in the name of an anchor, a tag handle or a directive? -/
def isNameChar (c : Char) : Bool := c.isAlphanum || c == '_' || c == '-'

/-- Does a blank, the end of the line or the end of the text come first? -/
def atWordEnd : List Char → Bool
  | [] => true
  | c :: _ => isBlank c || isBreak c

/-- The character that a line break leaves in a scalar: one of two rare ones stays, and any
    other becomes a line feed. -/
def breakText (c : Char) : Char := if c.toNat == 0x2028 || c.toNat == 0x2029 then c else '\n'

/-! ## Positions -/

/-- What is left of a text of `length` characters, how many characters were passed, and the line
    and the column. -/
structure Cursor where
  length : Nat
  rest : List Char
  index : Nat
  line : Nat
  column : Nat

namespace Cursor

/-- The start of a text. -/
def start (text : String) : Cursor := ⟨text.length, text.toList, 0, 0, 0⟩

/-- Enough steps for a loop that passes a character in each of them. -/
def steps (cursor : Cursor) : Nat := cursor.length + 1

/-- Passes characters of the current line. -/
def skip (count : Nat) (cursor : Cursor) : Cursor :=
  { cursor with
    rest := cursor.rest.drop count
    index := cursor.index + count
    column := cursor.column + count }

/-- Passes what stands before `rest`, an end of the current line. -/
def skipTo (rest : List Char) (cursor : Cursor) : Cursor :=
  cursor.skip (cursor.rest.length - rest.length)

/-- Passes a line break, of one or two characters. -/
def nextLine (cursor : Cursor) : Cursor :=
  let length := match cursor.rest with
    | '\r' :: '\n' :: _ => 2
    | _ => 1
  { cursor with
    rest := cursor.rest.drop length
    index := cursor.index + length
    line := cursor.line + 1
    column := 0 }

/-- The first characters that satisfy a test. -/
def run (test : Char → Bool) (cursor : Cursor) : List Char := cursor.rest.takeWhile test

/-- Passes the first characters that satisfy a test. -/
def skipWhile (test : Char → Bool) (cursor : Cursor) : Cursor :=
  cursor.skip (cursor.run test).length

/-- Passes a comment, if one starts here. -/
def skipComment (cursor : Cursor) : Cursor :=
  if cursor.rest.head? == some '#' then cursor.skipWhile (!isBreak ·) else cursor

/-- Is the next character this one? -/
def startsWith (c : Char) (cursor : Cursor) : Bool := cursor.rest.head? == some c

/-- Does the line start with three of the character, and nothing else up to a blank? -/
def atTriple (c : Char) (cursor : Cursor) : Bool :=
  cursor.column == 0 && cursor.rest.take 3 == [c, c, c] && atWordEnd (cursor.rest.drop 3)

/-- Does the line start with the mark of a document's start or end? -/
def atDocumentMark (cursor : Cursor) : Bool := cursor.atTriple '-' || cursor.atTriple '.'

/-- Passes blanks, a comment and the break that end a line; nothing when more stands on it. -/
def finishLine? (cursor : Cursor) : Option Cursor :=
  let cursor := (cursor.skipWhile isBlank).skipComment
  match cursor.rest with
  | [] => some cursor
  | c :: _ => if isBreak c then some cursor.nextLine else none

end Cursor

end TypedClient.Yaml
