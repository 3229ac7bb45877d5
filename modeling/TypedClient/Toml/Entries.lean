/-
  TypedClient.Toml.Entries

  TOML documents that only give texts and truth values to keys at the top level. A document with
  anything else is refused.
-/
import TypedClient.Toml.Text

namespace TypedClient.Toml

/-- Values of such a document. -/
inductive Value where
  | text (value : String)
  | flag (value : Bool)
  deriving DecidableEq, Repr

/-- May the character stand in a key without quotes? -/
def isKeyChar (c : Char) : Bool := c.isAlphanum || c == '_' || c == '-'

/-- A key, and what follows it. -/
def readKey (text : List Char) : Option (String × List Char) :=
  match text with
  | [] => none
  | c :: _ =>
    if c == '"' || c == '\'' then
      if text.take 3 == [c, c, c] then none else readQuoted c text
    else match text.span isKeyChar with
      | ([], _) => none
      | (key, rest) => some (String.ofList key, rest)

/-- A value, and what follows it. -/
def readValue : List Char → Option (Value × List Char)
  | '"' :: rest => (readQuoted '"' ('"' :: rest)).map fun (value, rest) => (.text value, rest)
  | '\'' :: rest => (readQuoted '\'' ('\'' :: rest)).map fun (value, rest) => (.text value, rest)
  | 't' :: 'r' :: 'u' :: 'e' :: rest => some (.flag true, rest)
  | 'f' :: 'a' :: 'l' :: 's' :: 'e' :: rest => some (.flag false, rest)
  | _ => none

/-- Passes blanks, a comment and a line break; nothing when more stands on the line. -/
def finishLine? (text : List Char) : Option (List Char) :=
  let text := text.dropWhile isBlank
  let text := if text.head? == some '#' then text.dropWhile isPrintable else text
  if text.isEmpty then some [] else dropBreak? text

/-- A key, its value and the end of their line. -/
def readEntry (text : List Char) : Option ((String × Value) × List Char) := do
  let (key, text) ← readKey text
  match text.dropWhile isBlank with
  | '=' :: text =>
    let (value, text) ← readValue (text.dropWhile isBlank)
    some ((key, value), ← finishLine? text)
  | _ => none

/-- The entries of the lines of a document. -/
def readEntries : Nat → List Char → Option (List (String × Value))
  | 0, _ => none
  | fuel + 1, text =>
    let text := text.dropWhile isBlank
    if text.isEmpty then some []
    else match finishLine? text with
      | some rest => readEntries fuel rest
      | none => do
        let (entry, rest) ← readEntry text
        some (entry :: (← readEntries fuel rest))

/-- The entries of a document, in order. -/
def entries? (text : String) : Option (List (String × Value)) :=
  let text := match text.toList with
    | c :: rest => if c.toNat = 0xFEFF then rest else c :: rest
    | [] => []
  readEntries (text.length + 1) text

end TypedClient.Toml
