/-
  TypedClient.Yaml.Token.Quoted

  Scalars between single or double quotes. Between single quotes only the quote is special, and
  is written twice; between double quotes a backslash starts an escape.
-/
import TypedClient.Text.Digits
import TypedClient.Yaml.Token.Gap

namespace TypedClient.Yaml

/-- The character that a single letter after a backslash stands for. -/
def escapedChar? (c : Char) : Option Char :=
  match c with
  | '0' => some (Char.ofNat 0)
  | 'a' => some (Char.ofNat 0x07)
  | 'b' => some (Char.ofNat 0x08)
  | 't' => some '\t'
  | '\t' => some '\t'
  | 'n' => some '\n'
  | 'v' => some (Char.ofNat 0x0B)
  | 'f' => some (Char.ofNat 0x0C)
  | 'r' => some '\r'
  | 'e' => some (Char.ofNat 0x1B)
  | ' ' => some ' '
  | '"' => some '"'
  | '/' => some '/'
  | '\\' => some '\\'
  | 'N' => some (Char.ofNat 0x85)
  | '_' => some (Char.ofNat 0xA0)
  | 'L' => some (Char.ofNat 0x2028)
  | 'P' => some (Char.ofNat 0x2029)
  | _ => none

/-- Number of hexadecimal digits after a letter that announces a code point. -/
def codeLength? (c : Char) : Option Nat :=
  match c with
  | 'x' => some 2
  | 'u' => some 4
  | 'U' => some 8
  | _ => none

/-- The character that an escape stands for, and the length of the escape after its backslash. -/
def readEscape : List Char → Option (Char × Nat)
  | [] => none
  | c :: rest =>
    match codeLength? c with
    | none => (escapedChar? c).map (·, 1)
    | some length =>
      let digits := rest.take length
      if digits.length < length then none else (Text.codeChar? digits).map (·, length + 1)

/-- Characters up to a blank, a break or the closing quote, in reverse on top of `read`, and
    whether an escaped line break came last. -/
def quotedRun (single : Bool) : Nat → List Char → Cursor → Option (List Char × Bool × Cursor)
  | 0, _, _ => none
  | fuel + 1, read, cursor =>
    match cursor.rest with
    | [] => some (read, false, cursor)
    | c :: rest =>
      if isBlank c || isBreak c then some (read, false, cursor)
      else if single then
        if c != '\'' then quotedRun single fuel (c :: read) (cursor.skip 1)
        else if rest.head? == some '\'' then quotedRun single fuel (c :: read) (cursor.skip 2)
        else some (read, false, cursor)
      else if c == '"' then some (read, false, cursor)
      else if c == '\\' then
        if rest.head?.any isBreak then some (read, true, (cursor.skip 1).nextLine)
        else
          match readEscape rest with
          | none => none
          | some (d, length) => quotedRun single fuel (d :: read) (cursor.skip (length + 1))
      else quotedRun single fuel (c :: read) (cursor.skip 1)

/-- Rest of a scalar after its opening quote: its text in reverse on top of `read`. A mark of a
    document's start or end may not stand in it. -/
def readQuoted (single : Bool) : Nat → List Char → Cursor → Option (List Char × Cursor)
  | 0, _, _ => none
  | fuel + 1, read, cursor =>
    if cursor.atDocumentMark || cursor.rest.isEmpty then none
    else do
      let (read, escaped, cursor) ← quotedRun single cursor.steps read cursor
      if cursor.startsWith (if single then '\'' else '"') then some (read, cursor.skip 1)
      else
        let gap := if escaped then Gap.escaped else Gap.empty
        let (gap, cursor) ← readGap 0 cursor.steps gap cursor
        readQuoted single fuel (gap.text ++ read) cursor

end TypedClient.Yaml
