/-
  TypedClient.Json.Read

  Reading JSON text. Containers nest at most 127 deep. A repeated key keeps its first place and
  its last value, so that no value that is read repeats a key.
-/
import TypedClient.Json.Literal

namespace TypedClient.Json

/-- Blanks between the tokens of JSON text. -/
def isSeparator (c : Char) : Bool := c == ' ' || c == '\n' || c == '\t' || c == '\r'

/-- The text after its leading blanks. -/
def skipSeparators (text : List Char) : List Char := text.dropWhile isSeparator

/-- Items up to the closing bracket, given how an item is read. -/
def readItems (item : List Char → Option (Json × List Char)) :
    Nat → List Char → Option (List Json × List Char)
  | 0, _ => none
  | fuel + 1, text => do
    let (first, text) ← item text
    match skipSeparators text with
    | ']' :: text => some ([first], text)
    | ',' :: text =>
      let (others, text) ← readItems item fuel text
      some (first :: others, text)
    | _ => none

/-- Fields up to the closing brace, given how a value is read. -/
def readFields (value : List Char → Option (Json × List Char)) :
    Nat → List Char → Option (List (String × Json) × List Char)
  | 0, _ => none
  | fuel + 1, text => do
    let (key, text) ← match skipSeparators text with
      | '"' :: text => readStringFrom [] text
      | _ => none
    let text ← match skipSeparators text with
      | ':' :: text => some text
      | _ => none
    let (first, text) ← value text
    match skipSeparators text with
    | '\x7d' :: text => some ([(key, first)], text)
    | ',' :: text =>
      let (others, text) ← readFields value fuel text
      some ((key, first) :: others, text)
    | _ => none

/-- A value at the start of a text, in which at most `depth` containers nest. -/
def readValue (depth : Nat) (text : List Char) : Option (Json × List Char) :=
  match skipSeparators text with
  | 'n' :: 'u' :: 'l' :: 'l' :: rest => some (.null, rest)
  | 't' :: 'r' :: 'u' :: 'e' :: rest => some (.bool true, rest)
  | 'f' :: 'a' :: 'l' :: 's' :: 'e' :: rest => some (.bool false, rest)
  | '"' :: rest => (readStringFrom [] rest).map fun (value, rest) => (.str value, rest)
  | '[' :: rest =>
    match depth with
    | 0 => none
    | depth + 1 =>
      match skipSeparators rest with
      | ']' :: rest => some (.arr [], rest)
      | _ => (readItems (readValue depth) rest.length rest).map fun (items, rest) =>
        (.arr items, rest)
  | '\x7b' :: rest =>
    match depth with
    | 0 => none
    | depth + 1 =>
      match skipSeparators rest with
      | '\x7d' :: rest => some (.obj [], rest)
      | _ => (readFields (readValue depth) rest.length rest).map fun (fields, rest) =>
        -- A repeated key is settled here, once the object is complete.
        (.obj (Keyed.ofList fields), rest)
  | text => (readNumber text).map fun (value, rest) => (.num value, rest)

/-- The deepest nesting that is read. -/
def nestingLimit : Nat := 127

/-- The value that a text holds, blanks around it allowed; nothing when it is not JSON. -/
def parseWithin (depth : Nat) (text : String) : Option Json :=
  match readValue depth text.toList with
  | some (value, rest) => if (skipSeparators rest).isEmpty then some value else none
  | none => none

/-- The value that a text holds. -/
def parse (text : String) : Option Json := parseWithin nestingLimit text

end TypedClient.Json
