/-
  TypedClient.Fragment.OfSchema

  The fragment of a schema, given the schemas that are registered.

  Positions are named as they are when schemas are registered, so that an inline enumeration or
  composition finds its own declaration. A schema without a fragment is left out by what holds it.

  There are two kinds of absence: `none` says that `fuel`, the bound on the recursion, ran out, and
  `some none` that the schema has no fragment.
-/
import TypedClient.Fragment
import TypedClient.Registry
import TypedClient.Schema.AllOf

namespace TypedClient

/-- Where a schema stands: inside another one, at the top of a declaration, or at the top of a
    class, which supplies the wrapper of an object itself. -/
inductive Position where
  | nested
  | topLevel
  | topLevelClass
  deriving DecidableEq, Repr

namespace Schema

/-- For a union of two members of which just one is `null`, the other member. -/
def withoutNull? (schema : Schema) : Option SchemaNode :=
  let isNull (node : SchemaNode) : Bool := node.toSchema?.any Schema.isNull
  match schema.unionMembers? with
  | some [first, second] =>
    match isNull first, isNull second with
    | true, false => some second
    | false, true => some first
    | _, _ => none
  | _ => none

/-- Is the node a constant? -/
def isConstant (node : SchemaNode) : Bool := node.object?.any (·.const.isSome)

/-- Is the node a primitive type without literals, reference and properties? -/
def isPlainPrimitive (node : SchemaNode) : Bool :=
  node.toSchema?.any fun schema =>
    (match schema.typeName? with
      | some name => name == "string" || name == "number" || name == "integer" || name == "boolean"
      | none => false)
    && !schema.isEnumLike && schema.ref.isNone && schema.properties.isNone

/-- Members of a union that are rendered. Constants beside at most one plain primitive are a closed
    set of literals, whose type the primitive only documents. -/
def literalBranches (members : List SchemaNode) : List SchemaNode :=
  let constants := members.filter isConstant
  let others := members.filter (!isConstant ·)
  if !constants.isEmpty && others.length ≤ 1 && others.all isPlainPrimitive then constants
  else members

/-- A limit from its inclusive and its exclusive keyword. -/
def bound? (limit : Option Number) : Option Exclusive → Option Bound
  | some (.bound strict) => some ⟨strict, true⟩
  | some (.flag strict) => limit.map (⟨·, strict⟩)
  | none => limit.map (⟨·, false⟩)

/-- Constraints of a number with this schema. -/
def numberFacets (schema : Schema) (integer : Bool) : NumberFacets where
  integer := integer
  minimum := bound? schema.minimum schema.exclusiveMinimum
  maximum := bound? schema.maximum schema.exclusiveMaximum

/-- Constraints of a text with this schema. -/
def stringFacets (schema : Schema) : StringFacets where
  minLength := schema.minLength
  maxLength := schema.maxLength
  pattern := schema.pattern
  binary := schema.format == some "binary" || schema.contentEncoding == some "binary"

end Schema

namespace Fragment

/-- How the fragment of a nested position with a name, if any, is found. -/
abbrev Renderer := SchemaNode → Option String → Option (Option Fragment)

/-- A union of the fragments there are; none when there are none. -/
def unionOf (fragments : List (Option Fragment)) : Option Fragment :=
  match fragments.filterMap id with
  | [] => none
  | members => some (.union members)

/-- The fragment of a union of schemas. -/
def ofUnion (render : Renderer) (members : List SchemaNode) (name : Option String) :
    Option (Option Fragment) := do
  let fragments ← (Schema.literalBranches members).mapM
    (render · (name.map Text.enumChildName))
  some (unionOf fragments)

/-- The fragment of a map. -/
def ofRecord (render : Renderer) (schema : Schema) : Option (Option Fragment) :=
  match schema.additionalProperties with
  | none => some (some (.record none))
  | some (.bool true) => some (some (.record none))
  | some (.bool false) => some (some (.record (some .never)))
  | some node => do
    let values ← render node none
    some (values.map fun values => .record (some values))

/-- The fragment of an array. -/
def ofArray (render : Renderer) (schema : Schema) : Option (Option Fragment) := do
  let item ← match schema.items with
    | none => some (some .unknown)
    | some (.single (.bool false)) => some (some .never)
    | some (.single item) => render item none
    | some (.tuple items) => ofUnion render items none
  let nonEmpty := schema.minItems.any (1 ≤ ·)
  some (item.map fun item => .array item nonEmpty schema.maxItems)

/-- The fragment of a schema of one type. -/
def ofType (render : Renderer) (schema : Schema) (name : String) : Option (Option Fragment) :=
  match name with
  | "string" => some (some (.string schema.stringFacets))
  | "integer" => some (some (.number (schema.numberFacets true)))
  | "number" => some (some (.number (schema.numberFacets false)))
  | "boolean" => some (some .boolean)
  | "null" => some (some .null)
  | "object" => ofRecord render schema
  | "array" => ofArray render schema
  | _ => some (some .unknown)

/-- The fragment of a reference: the name of its declaration, if there is one. -/
def ofReference (registry : Registry) (reference : String) : Option Fragment :=
  let name := Reference.name reference
  if Reference.isInternal reference && registry.has name then some (.named name) else none

/-- The schema whose annotations describe a property: for a reference, its target. -/
def annotated? (registry : Registry) (document : Json) (own : Option Schema) : Option Schema :=
  match own.bind (·.ref) with
  | some reference =>
    (registry.target? reference).or <|
      ((Reference.resolveNode document reference).bind SchemaNode.toSchema?).or own
  | none => own

/-- One property of an object. A union with `null` is rendered as its other member and marked as
    nullable; keywords beside a reference come before those of its target. -/
def ofProperty (render : Renderer) (registry : Registry) (document : Json) (key : String)
    (node : SchemaNode) (name : Option String) (isRequired : Bool) :
    Option (Option (PropertyFacts × Fragment)) := do
  let own := node.toSchema?
  let full := annotated? registry document own
  let inline := own.any (·.ref.isNone)
  let other := full.bind Schema.withoutNull?
  let fragment ← match other with
    | some other => render other (if inline then name.map Text.enumChildName else none)
    | none => render node name
  -- What the property says itself comes before what the target of its reference says.
  let default := (own.bind (·.default)).or (full.bind (·.default))
  let isNullable := other.isSome || default.any Json.isNull
    || own.any (·.nullable == some true) || full.any (·.nullable == some true)
  let description := (own.bind (·.summary?)).or (full.bind (·.summary?))
  some (fragment.map fun fragment =>
    (⟨key, description, !isRequired, isNullable, default⟩, fragment))

/-- The fragment of an object with properties; none when it has properties but none of them has
    a fragment. -/
def ofObject (render : Renderer) (registry : Registry) (document : Json) (schema : Schema)
    (properties : Keyed SchemaNode) (name : Option String) (position : Position) :
    Option (Option Fragment) := do
  let required := schema.required.getD []
  let rendered ← properties.mapM fun (key, property) =>
    ofProperty render registry document key property
      (name.map (· ++ Text.identifier key)) (required.contains key)
  let members := rendered.filterMap id
  some (if members.isEmpty && !properties.isEmpty then none
    else some (.object members (position == .topLevelClass)))

/-- The fragment of an enumeration at a position: the name of its declaration when it is nested and
    has one, else its literals. -/
def ofEnum (registry : Registry) (values : List Json) (name : Option String)
    (position : Position) : Fragment :=
  match if position == .nested then name.filter registry.isEnum else none with
  | some name => .named name
  | none => if values.isEmpty then .never else .literals values

mutual
/-- The fragment of a node. -/
def ofNode (registry : Registry) (document : Json) :
    Nat → SchemaNode → Option String → Position → Option (Option Fragment)
  | 0, _, _, _ => none
  | _ + 1, .bool true, _, _ => some (some .unknown)
  | _ + 1, .bool false, _, _ => some none
  | fuel + 1, .object schema, name, position =>
    ofSchema registry document fuel schema.cleanup name position

/-- The fragment of a cleaned schema. -/
def ofSchema (registry : Registry) (document : Json) :
    Nat → Schema → Option String → Position → Option (Option Fragment)
  | 0, _, _, _ => none
  | fuel + 1, schema, name, position =>
    let render : Renderer := fun node name => ofNode registry document fuel node name .nested
    match schema.properties with
    -- Properties count before everything else, the type included.
    | some properties => ofObject render registry document schema properties name position
    | none =>
      if schema.typeName? == some "null" then some (some .null)
      else if schema.typeName? == some "object" then ofRecord render schema
      else match schema.const, schema.enum, schema.ref, schema.allOf with
      | some value, _, _, _ => some (some (.literals [value]))
      | none, some values, _, _ => some (some (ofEnum registry values name position))
      | none, none, some reference, _ => some (ofReference registry reference)
      | none, none, none, some [] => some none
      | none, none, none, some (_ :: _) =>
        let child := name.map Text.enumChildName
        -- At the top of a declaration the composition is written out.
        match if position == .nested then child.filter registry.has else none with
        | some child => some (some (.named child))
        | none => do
          let merged ← schema.resolveAllOf? document fuel
          ofSchema registry document fuel merged child position
      | none, none, none, none =>
        match schema.unionMembers?, schema.type with
        | some members, _ => ofUnion render members name
        | none, some (.single type) => ofType render schema type
        | none, some (.several (type :: types)) => do
          some (unionOf (← (type :: types).mapM (ofType render schema)))
        | none, _ => some (some .unknown)
end

end Fragment

end TypedClient
