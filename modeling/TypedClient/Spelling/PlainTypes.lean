/-
  TypedClient.Spelling.PlainTypes

  The flavor of plain type declarations, in which nothing is validated.
-/
import TypedClient.Spelling
import TypedClient.Text.Lines
import TypedClient.Text.Quoted

namespace TypedClient.PlainTypes

/-- An exported interface for an object, an exported alias for anything else. -/
def declaration (decl : Declaration) : String :=
  Text.comment decl.description ++
    if decl.isObject then "export interface " ++ decl.name ++ " " ++ decl.source
    else "export type " ++ decl.name ++ " = " ++ decl.source

/-- One line of an object. -/
def property (facts : PropertyFacts) (source : String) : String :=
  Text.comment facts.description ++ "readonly " ++ Text.quoted facts.key ++
    (if facts.isOptional then "?" else "") ++ ": " ++ source ++
    (if facts.isNullable then " | null" else "") ++
    (if facts.isOptional then " | undefined" else "")

/-- An object; it never has a wrapper. -/
def object (lines : List String) (_bare : Bool) : String :=
  if lines.isEmpty then "\x7b\x7d"
  else "\x7b\n" ++ Text.indent 2 ("\n".intercalate lines) ++ "\n\x7d"

/-- The words of this flavor. -/
def spelling : Spelling where
  declaration := declaration
  property := property
  object := object
  record values := "Record<string, " ++ values.getD "unknown" ++ ">"
  literals values := " | ".intercalate values
  named name := name
  union members := " | ".intercalate members
  string facets := if facets.binary then "Blob" else "string"
  number _ := "number"
  boolean := "boolean"
  array item nonEmpty _ :=
    if nonEmpty then "readonly [" ++ item ++ ", ...Array<" ++ item ++ ">]"
    else "ReadonlyArray<" ++ item ++ ">"
  null := "null"
  unknown := "unknown"
  never := "never"

end TypedClient.PlainTypes
