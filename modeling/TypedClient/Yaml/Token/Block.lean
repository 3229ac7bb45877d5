/-
  TypedClient.Yaml.Token.Block

  Scalars that are blocks of indented lines, kept line by line or folded into paragraphs.
-/
import TypedClient.Yaml.Cursor

namespace TypedClient.Yaml

/-- What happens to the line breaks at the end of a block. -/
inductive Chomping where
  /-- All are dropped. -/
  | strip
  /-- The first one stays. -/
  | clip
  /-- All stay. -/
  | keep
  deriving DecidableEq, Repr

/-- What the first line of a block says: its chomping, and by how much it is indented. -/
structure BlockHeader where
  chomping : Chomping
  indentation : Option Nat

/-- The chomping that a sign asks for. -/
def chomping? (c : Char) : Option Chomping :=
  if c == '+' then some .keep else if c == '-' then some .strip else none

/-- The chomping sign at the start of a text, and the rest. -/
def takeChomping (text : List Char) : Option Chomping × List Char :=
  match text with
  | c :: rest =>
    match chomping? c with
    | some chomping => (some chomping, rest)
    | none => (none, text)
  | [] => (none, [])

/-- The indentation digit at the start of a text, and the rest; a zero is refused. -/
def takeIndentation (text : List Char) : Option (Option Nat × List Char) :=
  match text with
  | c :: rest =>
    if c == '0' then none
    else if c.isDigit then some (some (c.toNat - 48), rest)
    else some (none, text)
  | [] => some (none, [])

/-- The header after the mark of a block, its two parts in either order. -/
def readBlockHeader (text : List Char) : Option (BlockHeader × List Char) := do
  let (before, text) := takeChomping text
  let (indentation, text) ← takeIndentation text
  let (after, text) :=
    if before.isNone && indentation.isSome then takeChomping text else (none, text)
  some (⟨(before.or after).getD .clip, indentation⟩, text)

/-- Passes the indentation of lines and lines without content. Gives what the line breaks leave,
    in reverse, and the deepest column reached. A tab may not stand in the indentation. -/
def readBlockBreaks (indent : Option Nat) :
    Nat → List Char → Nat → Cursor → Option (List Char × Nat × Cursor)
  | 0, _, _, _ => none
  | fuel + 1, breaks, deepest, cursor =>
    let spaces := (cursor.run (· == ' ')).length
    let cursor := cursor.skip ((indent.map fun n => min spaces (n - cursor.column)).getD spaces)
    let deepest := max deepest cursor.column
    match cursor.rest with
    | [] => some (breaks, deepest, cursor)
    | c :: _ =>
      if c == '\t' && indent.all (cursor.column < ·) then none
      else if isBreak c then
        readBlockBreaks indent fuel (breakText c :: breaks) deepest cursor.nextLine
      else some (breaks, deepest, cursor)

/-- Lines of a block so far. Lists are in reverse. -/
structure BlockText where
  text : List Char
  /-- What the break at the end of the last line leaves. -/
  lineEnd : List Char
  /-- Did the last line start with a blank? -/
  indented : Bool
  /-- What the breaks of lines without content leave. -/
  breaks : List Char

/-- Adds a line to a block. In a folded block the break between two lines that start without a
    blank becomes a space, or nothing before further breaks. -/
def BlockText.addLine (folded : Bool) (line lineEnd breaks : List Char) (block : BlockText) :
    BlockText :=
  let indented := line.head?.any isBlank
  let joint :=
    if folded && block.lineEnd == ['\n'] && !block.indented && !indented then
      if block.breaks.isEmpty then [' '] else []
    else block.lineEnd
  { text := line.reverse ++ block.breaks ++ joint ++ block.text
    lineEnd := lineEnd
    indented := indented
    breaks := breaks }

/-- The lines of a block that start at column `indent`. -/
def readBlockLines (folded : Bool) (indent : Nat) :
    Nat → BlockText → Cursor → Option (BlockText × Cursor)
  | 0, _, _ => none
  | fuel + 1, block, cursor =>
    if cursor.column != indent || cursor.rest.isEmpty then some (block, cursor)
    else do
      let line := cursor.run (!isBreak ·)
      let cursor := cursor.skip line.length
      let lineEnd := (cursor.rest.head?.map breakText).toList
      let cursor := if cursor.rest.isEmpty then cursor else cursor.nextLine
      let (breaks, _, cursor) ← readBlockBreaks (some indent) cursor.steps [] 0 cursor
      readBlockLines folded indent fuel (block.addLine folded line lineEnd breaks) cursor

/-- The text of a block in reverse, its end treated as the chomping says. -/
def BlockText.finish (chomping : Chomping) (block : BlockText) : List Char :=
  match chomping with
  | .strip => block.text
  | .clip => block.lineEnd ++ block.text
  | .keep => block.breaks ++ block.lineEnd ++ block.text

/-- A block after its mark, in a collection whose items start at column `parent`: its text in
    reverse. Without a digit in the header, the first line with content sets the indentation. -/
def readBlock (folded : Bool) (parent : Option Nat) (cursor : Cursor) :
    Option (List Char × Cursor) := do
  let (header, rest) ← readBlockHeader cursor.rest
  let cursor ← (cursor.skipTo rest).finishLine?
  let given := header.indentation.map (parent.getD 0 + ·)
  let (breaks, deepest, cursor) ← readBlockBreaks given cursor.steps [] 0 cursor
  let indent := given.getD (max deepest (max ((parent.map (· + 1)).getD 0) 1))
  let (block, cursor) ← readBlockLines folded indent cursor.steps ⟨[], [], false, breaks⟩ cursor
  some (block.finish header.chomping, cursor)

end TypedClient.Yaml
