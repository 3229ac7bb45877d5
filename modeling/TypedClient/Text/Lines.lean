/-
  TypedClient.Text.Lines

  Splitting a text into lines, indenting it, and wrapping it as a documentation comment.
-/
import TypedClient.Text.Blank

namespace TypedClient.Text

/-- Drops the carriage return that ends a line held in reverse. -/
def dropReturn : List Char → List Char
  | '\r' :: line => line
  | line => line

/-- Lines of a text whose current line, in reverse, is `line`. -/
def linesFrom (line : List Char) : List Char → List (List Char)
  | [] => if line.isEmpty then [] else [line.reverse]
  | '\n' :: rest => (dropReturn line).reverse :: linesFrom [] rest
  | c :: rest => linesFrom (c :: line) rest

/-- Lines of a text. A line ends with a line feed, or a carriage return and a line feed; text
    after the last line feed is a line of its own when there is any, kept as it is. -/
def lines (text : String) : List String :=
  (linesFrom [] text.toList).map String.ofList

/-- `width` spaces, then the line; an empty line stays empty. -/
def indentLine (width : Nat) (line : String) : String :=
  if line.isEmpty then "" else String.ofList (List.replicate width ' ') ++ line

/-- Indents every line that is not empty by `width` spaces. -/
def indent (width : Nat) (text : String) : String :=
  "\n".intercalate ((lines text).map (indentLine width))

/-! ## Documentation comments -/

/-- Breaks every `*/` with a backslash, so that it no longer closes a comment. -/
def breakClosers : List Char → List Char
  | '*' :: '/' :: rest => '*' :: '\\' :: '/' :: breakClosers rest
  | c :: rest => c :: breakClosers rest
  | [] => []

/-- One line of a documentation comment. -/
def commentLine (line : String) : String :=
  "* " ++ String.ofList (breakClosers line.toList) ++ "\n"

/-- A documentation comment block holding the trimmed text, or nothing when there is none. -/
def comment (text : Option String) : String :=
  match text.bind nonEmpty? with
  | none => ""
  | some text => "/**\n" ++ String.join ((lines text).map commentLine) ++ "*/\n"

end TypedClient.Text
