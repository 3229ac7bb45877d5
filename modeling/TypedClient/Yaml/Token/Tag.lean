/-
  TypedClient.Yaml.Token.Tag

  Tags, anchors and directives. The text of a tag holds one character for each of its bytes: a
  byte written with a percent sign is the character of that code.
-/
import TypedClient.Text.Digits
import TypedClient.Yaml.Cursor
import TypedClient.Yaml.Token

namespace TypedClient.Yaml

/-- May the character stand in a tag as it is? Commas and brackets may when `verbatim` is set. -/
def isTagChar (verbatim : Bool) (c : Char) : Bool :=
  isNameChar c || ";/?:@&=+$.!~*'()".toList.contains c || (verbatim && ",[]".toList.contains c)

/-- Number of further bytes that the first byte of a UTF-8 sequence announces. -/
def trailingBytes? (lead : Nat) : Option Nat :=
  if lead < 0x80 then some 0
  else if lead < 0xC0 then none
  else if lead < 0xE0 then some 1
  else if lead < 0xF0 then some 2
  else if lead < 0xF8 then some 3
  else none

/-- Characters of a tag, in reverse on top of `read`, and the rest of the text. `due` bytes of a
    sequence that was begun are still to come. -/
def readTagText (verbatim : Bool) (due : Nat) (read : List Char) :
    List Char → Option (List Char × List Char)
  | '%' :: a :: b :: rest =>
    match Text.digitValue? a, Text.digitValue? b with
    | some high, some low =>
      let byte := high * 16 + low
      if due = 0 then
        match trailingBytes? byte with
        | some more => readTagText verbatim more (Char.ofNat byte :: read) rest
        | none => none
      else if byte / 64 = 2 then readTagText verbatim (due - 1) (Char.ofNat byte :: read) rest
      else none
    | _, _ => none
  | '%' :: _ => none
  | c :: rest =>
    if due ≠ 0 then none
    else if isTagChar verbatim c then readTagText verbatim 0 (c :: read) rest
    else some (read, c :: rest)
  | [] => if due = 0 then some (read, []) else none

/-- Text of a tag that may not be empty. -/
def readTagSuffix (verbatim : Bool) (text : List Char) : Option (List Char × List Char) :=
  match readTagText verbatim 0 [] text with
  | some (c :: read, rest) => some ((c :: read).reverse, rest)
  | _ => none

/-- The exclamation mark, a name and, if there is one, a second mark, that start a tag. -/
def readTagHandle : List Char → Option (List Char × List Char)
  | '!' :: rest =>
    match rest.span isNameChar with
    | (name, '!' :: rest) => some ('!' :: (name ++ ['!']), rest)
    | (name, rest) => some ('!' :: name, rest)
  | _ => none

/-- Does the handle end with a mark of its own? -/
def isClosedHandle (handle : List Char) : Bool :=
  1 < handle.length && handle.getLast? == some '!'

/-- Handle and suffix of a tag. An exclamation mark alone has no handle. -/
def readTagParts (text : List Char) : Option ((String × String) × List Char) :=
  match text with
  | '!' :: '<' :: rest => do
    let (suffix, rest) ← readTagSuffix true rest
    match rest with
    | '>' :: rest => some (("", String.ofList suffix), rest)
    | _ => none
  | _ => do
    let (handle, rest) ← readTagHandle text
    if isClosedHandle handle then
      let (suffix, rest) ← readTagSuffix false rest
      some ((String.ofList handle, String.ofList suffix), rest)
    else
      let (suffix, rest) ← readTagText false 0 (handle.drop 1).reverse rest
      let parts := if suffix.isEmpty then ("", "!") else ("!", String.ofList suffix.reverse)
      some (parts, rest)

/-- A tag, which ends with a word or, inside brackets, at a comma. -/
def readTag (inFlow : Bool) (text : List Char) : Option (Token × List Char) := do
  let ((handle, suffix), rest) ← readTagParts text
  if atWordEnd rest || (inFlow && rest.head? == some ',') then some (.tag handle suffix, rest)
  else none

/-- The name of an anchor, which ends with a word or at one of a few marks. -/
def readAnchorName (text : List Char) : Option (String × List Char) :=
  match text.span isNameChar with
  | ([], _) => none
  | (name, rest) =>
    if atWordEnd rest || rest.head?.any ("?:,]\x7d%@\x60".toList.contains ·) then
      some (String.ofList name, rest)
    else none

/-! ## Directives -/

/-- A number of at most nine digits. -/
def readVersionNumber (text : List Char) : Option (Nat × List Char) :=
  match text.span Char.isDigit with
  | ([], _) => none
  | (digits, rest) => if 9 < digits.length then none else (Text.numberIn? 10 digits).map (·, rest)

/-- The two numbers of a version directive. -/
def readVersion (text : List Char) : Option (Token × List Char) := do
  let (major, text) ← readVersionNumber (text.dropWhile isBlank)
  match text with
  | '.' :: text => (readVersionNumber text).map fun (minor, text) => (.version major minor, text)
  | _ => none

/-- The handle of a tag directive and what it stands for. -/
def readTagDirective (text : List Char) : Option (Token × List Char) := do
  let (handle, text) ← readTagHandle (text.dropWhile isBlank)
  if handle != ['!'] && !isClosedHandle handle then none
  else if !text.head?.any isBlank then none
  else
    let (expansion, text) ← readTagSuffix true (text.dropWhile isBlank)
    if atWordEnd text then
      some (.tagHandle (String.ofList handle) (String.ofList expansion), text)
    else none

/-- A directive after its percent sign. -/
def readDirective (text : List Char) : Option (Token × List Char) :=
  match text.span isNameChar with
  | (name, rest) =>
    if !atWordEnd rest then none
    else if name == "YAML".toList then readVersion rest
    else if name == "TAG".toList then readTagDirective rest
    else none

end TypedClient.Yaml
