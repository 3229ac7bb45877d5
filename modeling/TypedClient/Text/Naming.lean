/-
  TypedClient.Text.Naming

  Names of declarations: camel case over ASCII letters and digits, and the name of a position
  that lies under a named one.
-/
import TypedClient.Text.Uppercase

namespace TypedClient.Text

/-- Camel case from the middle of a name: `started` once something has been written, `raise`
    when the next letter has to be a capital. -/
def camelizeFrom (started raise : Bool) : List Char → List Char
  | [] => []
  | c :: rest =>
    if c.isAlpha then
      (if raise then c.toUpper else c) :: camelizeFrom true false rest
    else if c.isDigit then
      if started then c :: camelizeFrom true true rest else camelizeFrom false raise rest
    else camelizeFrom started (started || raise) rest

/-- Lower camel case: ASCII letters are kept, digits are kept once a letter has been, everything
    else is dropped, and a letter after a digit or a dropped character becomes a capital. -/
def camelize (name : String) : String :=
  String.ofList (camelizeFrom false false name.toList)

/-- Upper case for the first character; the rest stays as it is. -/
def capitalizeFirst (text : String) : String :=
  match text.toList with
  | [] => ""
  | c :: rest => String.ofList (uppercase c ++ rest)

/-- Upper camel case. -/
def identifier (name : String) : String :=
  capitalizeFirst (camelize name)

/-- Suffix of the name of an inline enumeration, composition or union. -/
def enumSuffix : String := "Enum"

/-- Name of an inline enumeration, composition or union under `parent`. The suffix is written
    once, however deep the position lies. -/
def enumChildName (parent : String) : String :=
  if enumSuffix.toList.isSuffixOf parent.toList then parent else parent ++ enumSuffix

end TypedClient.Text
