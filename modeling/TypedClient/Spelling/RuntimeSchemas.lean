/-
  TypedClient.Spelling.RuntimeSchemas

  The flavor in which every schema is a value that decodes and validates at run time.
-/
import TypedClient.Spelling
import TypedClient.Text.Lines
import TypedClient.Text.Quoted

namespace TypedClient.RuntimeSchemas

/-- Wraps a property for its annotations. An optional property always accepts `null` when it is
    decoded, and a `null` default of a nullable one replaces every other wrapper. -/
def annotate (source : String) (facts : PropertyFacts) : String :=
  let literal := (facts.default.filter (!·.isNull)).map Json.render
  if facts.isNullable && facts.default.any Json.isNull then
    "S.optionalWith(S.NullOr(" ++ source ++ "), \x7b default: () => null \x7d)"
  else if facts.isOptional then
    match literal with
    | some literal =>
      "S.optionalWith(" ++ source ++ ", \x7b nullable: true, default: () => " ++ literal ++
        " as const \x7d)"
    | none => "S.optionalWith(" ++ source ++ ", \x7b nullable: true \x7d)"
  else if facts.isNullable then "S.NullOr(" ++ source ++ ")"
  else match literal with
    | some literal =>
      source ++ ".pipe(S.propertySignature, S.withConstructorDefault(() => " ++ literal ++
        " as const))"
    | none => source

/-- A schema with checks piped onto it. -/
def withChecks (base : String) (checks : List String) : String :=
  if checks.isEmpty then base else base ++ ".pipe(" ++ ", ".intercalate checks ++ ")"

/-- An exported class. -/
def declaration (decl : Declaration) : String :=
  let head := Text.comment decl.description ++ "export class " ++ decl.name ++ " extends "
  if decl.isObject && decl.isClass then
    head ++ "S.Class<" ++ decl.name ++ ">(\"" ++ decl.name ++ "\")(" ++ decl.source ++ ") \x7b\x7d"
  else head ++ decl.source ++ " \x7b\x7d"

/-- One line of an object. -/
def property (facts : PropertyFacts) (source : String) : String :=
  Text.comment facts.description ++ Text.quoted facts.key ++ ": " ++ annotate source facts

/-- An object; a bare one has no struct around it. -/
def object (lines : List String) (bare : Bool) : String :=
  let body :=
    if lines.isEmpty then "\x7b\x7d"
    else "\x7b\n" ++ Text.indent 2 (",\n".intercalate lines) ++ "\n\x7d"
  if bare then body else "S.Struct(" ++ body ++ ")"

/-- Checks of a text. -/
def stringChecks (facets : StringFacets) : List String :=
  (facets.minLength.map fun least => "S.minLength(" ++ toString least ++ ")").toList ++
  (facets.maxLength.map fun most => "S.maxLength(" ++ toString most ++ ")").toList ++
  (facets.pattern.map fun pattern =>
    "S.pattern(new RegExp(" ++ Json.renderString pattern ++ "))").toList

/-- A limit, checked by the word for its kind. -/
def boundCheck (exclusive inclusive : String) (bound : Bound) : String :=
  "S." ++ (if bound.exclusive then exclusive else inclusive) ++ "(" ++ bound.value.render ++ ")"

/-- Checks of a number. -/
def numberChecks (facets : NumberFacets) : List String :=
  (facets.minimum.map (boundCheck "greaterThan" "greaterThanOrEqualTo")).toList ++
  (facets.maximum.map (boundCheck "lessThan" "lessThanOrEqualTo")).toList

/-- The words of this flavor. -/
def spelling : Spelling where
  declaration := declaration
  property := property
  object := object
  record values := "S.Record(\x7b key: S.String, value: " ++ values.getD "S.Unknown" ++ " \x7d)"
  literals values := "S.Literal(" ++ ", ".intercalate values ++ ")"
  named name := name
  union members := "S.Union(" ++ ", ".intercalate members ++ ")"
  string facets :=
    if facets.binary then "S.instanceOf(globalThis.Blob)"
    else withChecks "S.String" (stringChecks facets)
  number facets :=
    withChecks (if facets.integer then "S.Int" else "S.Number") (numberChecks facets)
  boolean := "S.Boolean"
  array item nonEmpty maxItems :=
    withChecks ((if nonEmpty then "S.NonEmptyArray(" else "S.Array(") ++ item ++ ")")
      (maxItems.map fun most => "S.maxItems(" ++ toString most ++ ")").toList
  null := "S.Null"
  unknown := "S.Unknown"
  never := "S.Never"

end TypedClient.RuntimeSchemas
