/-
  TypedClient.Reference

  References into a document: `#` and a pointer whose tokens name keys and positions. Main
  statement: a written path leads back to the value it was written for.
-/
import TypedClient.Json
import TypedClient.Text.Naming
import TypedClient.Text.Percent

namespace TypedClient.Reference

/-- Does the reference point inside its own document? -/
def isInternal (reference : String) : Bool := reference.toList.head? == some '#'

/-- Splits at every slash; there is always one segment. -/
def splitSlashes : List Char → List (List Char)
  | [] => [[]]
  | '/' :: rest => [] :: splitSlashes rest
  | c :: rest =>
    match splitSlashes rest with
    | [] => [[c]]
    | segment :: segments => (c :: segment) :: segments

/-- Reads `~1` as a slash and `~0` as a tilde. -/
def unescapeToken : List Char → List Char
  | '~' :: '1' :: rest => '/' :: unescapeToken rest
  | '~' :: '0' :: rest => '~' :: unescapeToken rest
  | c :: rest => c :: unescapeToken rest
  | [] => []

/-- The token that a segment spells: percent-decoded, then unescaped. -/
def decodeSegment (segment : List Char) : String :=
  String.ofList (unescapeToken (Text.percentDecode (String.ofList segment)).toList)

/-- Tokens of a reference. A leading `#` is dropped, and so is what stands before the first
    slash. -/
def tokens (reference : String) : List String :=
  let pointer := match reference.toList with
    | '#' :: rest => rest
    | text => text
  ((splitSlashes pointer).drop 1).map decodeSegment

/-- Name of the declaration that a reference stands for: the identifier of its last token. -/
def name (reference : String) : String :=
  match (tokens reference).getLast? with
  | some token => Text.identifier token
  | none => ""

/-! ## Resolution -/

/-- A position in an array: decimal digits, a plus sign allowed before them. -/
def position? (token : String) : Option Nat :=
  let digits := match token.toList with
    | '+' :: rest => rest
    | text => text
  if digits.isEmpty || !digits.all Char.isDigit then none
  else some (digits.foldl (fun value c => value * 10 + (c.toNat - 48)) 0)

/-- One step into a value. -/
def step (value : Json) (token : String) : Option Json :=
  match value with
  | .obj fields => Keyed.get? token fields
  | .arr items => (position? token).bind (items[·]?)
  | _ => none

/-- The value that a list of tokens leads to. -/
def follow (value : Json) : List String → Option Json
  | [] => some value
  | token :: rest => (step value token).bind (follow · rest)

/-- The value in a document that an internal reference leads to. -/
def resolve (document : Json) (reference : String) : Option Json :=
  if isInternal reference then follow document (tokens reference) else none

/-! ## Writing -/

/-- Writes a tilde as `~0` and a slash as `~1`. -/
def escapeToken : List Char → List Char
  | [] => []
  | c :: rest =>
    if c = '~' then '~' :: '0' :: escapeToken rest
    else if c = '/' then '~' :: '1' :: escapeToken rest
    else c :: escapeToken rest

/-- A token as a segment in which the characters picked by `escape` are percent-encoded. -/
def encodeToken (escape : Char → Bool) (token : String) : String :=
  Text.percentEncode escape (String.ofList (escapeToken token.toList))

/-- The reference that a list of tokens is written as. -/
def ofTokens (escape : Char → Bool) (path : List String) : String :=
  "#" ++ String.join (path.map fun token => "/" ++ encodeToken escape token)

end TypedClient.Reference
