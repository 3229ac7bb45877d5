/-
  TypedClient.Toml.Text

  Texts of a TOML document: between double or single quotes, on one line or, between three quotes
  of a kind, on several.
-/
import TypedClient.Text.Digits

namespace TypedClient.Toml

/-- Space or tab. -/
def isBlank (c : Char) : Bool := c == ' ' || c == '\t'

/-- May the character stand in a text or a comment? Control characters may not, tabs apart. -/
def isPrintable (c : Char) : Bool := c == '\t' || (32 ≤ c.toNat && c.toNat != 127)

/-- What is left after a line break, if one comes first. -/
def dropBreak? : List Char → Option (List Char)
  | '\n' :: rest => some rest
  | '\r' :: '\n' :: rest => some rest
  | _ => none

/-- The character that a single letter after a backslash stands for. -/
def escapedChar? (c : Char) : Option Char :=
  match c with
  | 'b' => some (Char.ofNat 0x08)
  | 't' => some '\t'
  | 'n' => some '\n'
  | 'f' => some (Char.ofNat 0x0C)
  | 'r' => some '\r'
  | '"' => some '"'
  | '\\' => some '\\'
  | _ => none

/-- The character that an escape stands for, and what follows the escape. -/
def readEscape (text : List Char) : Option (Char × List Char) :=
  match text with
  | [] => none
  | c :: rest =>
    let length := if c == 'u' then 4 else if c == 'U' then 8 else 0
    let digits := rest.take length
    if length = 0 then (escapedChar? c).map (·, rest)
    else if digits.length < length then none
    else (Text.codeChar? digits).map (·, rest.drop length)

/-- Passes blanks and line breaks. -/
def skipBlankLines : Nat → List Char → List Char
  | 0, text => text
  | fuel + 1, text =>
    let text := text.dropWhile isBlank
    match dropBreak? text with
    | some rest => skipBlankLines fuel rest
    | none => text

/-- Rest of a text on one line after its opening quote, with what was read held in reverse. -/
def readLine (quote : Char) : Nat → List Char → List Char → Option (List Char × List Char)
  | 0, _, _ => none
  | fuel + 1, read, text =>
    match text with
    | [] => none
    | c :: rest =>
      if c == quote then some (read, rest)
      else if c == '\\' && quote == '"' then
        match readEscape rest with
        | some (d, rest) => readLine quote fuel (d :: read) rest
        | none => none
      else if isPrintable c then readLine quote fuel (c :: read) rest
      else none

/-- Rest of a text of several lines after its opening quotes. It ends at three quotes; one or two
    more before them belong to it. A backslash at the end of a line joins it to the next text. -/
def readLines (quote : Char) : Nat → List Char → List Char → Option (List Char × List Char)
  | 0, _, _ => none
  | fuel + 1, read, text =>
    -- Up to five quotes in a row: the last three close the text.
    let quotes := (text.takeWhile (· == quote)).length
    if 3 ≤ quotes then
      let kept := min (quotes - 3) 2
      some (List.replicate kept quote ++ read, text.drop (kept + 3))
    else
      match text with
      | [] => none
      | c :: rest =>
        if c == '\\' && quote == '"' then
          match dropBreak? (rest.dropWhile isBlank) with
          | some rest => readLines quote fuel read (skipBlankLines fuel rest)
          | none =>
            match readEscape rest with
            | some (d, rest) => readLines quote fuel (d :: read) rest
            | none => none
        else if isPrintable c then readLines quote fuel (c :: read) rest
        else
          match dropBreak? text with
          | some rest => readLines quote fuel ('\n' :: read) rest
          | none => none

/-- A text that starts with a quote, and what follows it. -/
def readQuoted (quote : Char) (text : List Char) : Option (String × List Char) :=
  let fuel := text.length + 1
  let result :=
    if text.take 3 == [quote, quote, quote] then
      let text := text.drop 3
      readLines quote fuel [] ((dropBreak? text).getD text)
    else readLine quote fuel [] (text.drop 1)
  result.map fun (read, rest) => (String.ofList read.reverse, rest)

end TypedClient.Toml
