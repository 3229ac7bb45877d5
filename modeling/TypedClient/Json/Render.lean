/-
  TypedClient.Json.Render

  Compact JSON text: no blanks, keys in their order. A string escapes the double quote, the
  backslash and the control characters, and keeps every other character as it is.
-/
import TypedClient.Json

namespace TypedClient.Json

/-- A small hexadecimal digit. -/
def hexSmall (n : Nat) : Char :=
  if n < 10 then Char.ofNat (48 + n) else Char.ofNat (87 + n)

/-- One character between the quotes of a string. -/
def renderChar (c : Char) : List Char :=
  if c = '"' then ['\\', '"']
  else if c = '\\' then ['\\', '\\']
  else if c = '\n' then ['\\', 'n']
  else if c = '\r' then ['\\', 'r']
  else if c = '\t' then ['\\', 't']
  else if c.toNat = 8 then ['\\', 'b']
  else if c.toNat = 12 then ['\\', 'f']
  else if c.toNat < 32 then ['\\', 'u', '0', '0', hexSmall (c.toNat / 16), hexSmall (c.toNat % 16)]
  else [c]

/-- A string between quotes. -/
def renderString (text : String) : String :=
  "\"" ++ String.ofList (text.toList.flatMap renderChar) ++ "\""

mutual
/-- Text of a value. -/
def render : Json → String
  | .null => "null"
  | .bool true => "true"
  | .bool false => "false"
  | .num value => value.render
  | .str value => renderString value
  | .arr items => "[" ++ ",".intercalate (renderItems items) ++ "]"
  | .obj fields => "\x7b" ++ ",".intercalate (renderFields fields) ++ "\x7d"

/-- Texts of the items. -/
def renderItems : List Json → List String
  | [] => []
  | item :: rest => item.render :: renderItems rest

/-- Texts of the fields. -/
def renderFields : List (String × Json) → List String
  | [] => []
  | (key, value) :: rest => (renderString key ++ ":" ++ value.render) :: renderFields rest
end

end TypedClient.Json
