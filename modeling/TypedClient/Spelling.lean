/-
  TypedClient.Spelling

  How fragments are spelled. A spelling says how each shape is written out of the texts of its
  parts; `Fragment.spell` folds a fragment with it, so that two flavors can differ in the words
  and in nothing else.
-/
import TypedClient.Fragment
import TypedClient.Json.Render

namespace TypedClient

/-- A declaration whose body has been spelled. -/
structure Declaration where
  name : String
  source : String
  description : Option String := none
  isClass : Bool := false
  isEnum : Bool := false
  /-- The schema declares properties. -/
  isObject : Bool := false
  deriving Inhabited

/-- The words of a flavor. -/
structure Spelling where
  /-- An exported declaration. -/
  declaration : Declaration → String
  /-- One line of an object: what is known of the property, and its spelled fragment. -/
  property : PropertyFacts → String → String
  /-- An object from its lines. -/
  object : List String → (bare : Bool) → String
  /-- A map from texts, possibly with unconstrained values. -/
  record : Option String → String
  /-- One of some literals. -/
  literals : List String → String
  /-- A declaration, mentioned by its name. -/
  named : String → String
  /-- One of two or more alternatives. -/
  union : List String → String
  string : StringFacets → String
  number : NumberFacets → String
  boolean : String
  array : (item : String) → (nonEmpty : Bool) → (maxItems : Option Nat) → String
  null : String
  unknown : String
  never : String

/-- The texts without repetitions, each at its first place. -/
def firstOccurrences (texts : List String) : List String :=
  texts.foldl (fun seen text => if seen.contains text then seen else seen ++ [text]) []

/-- A union of spelled members: equal ones count once, and a single one needs no union. -/
def Spelling.joinUnion (spelling : Spelling) (members : List String) : String :=
  match firstOccurrences members with
  | [member] => member
  | members => spelling.union members

namespace Fragment

mutual
/-- Text of a fragment. -/
def spell (spelling : Spelling) : Fragment → String
  | .unknown => spelling.unknown
  | .never => spelling.never
  | .null => spelling.null
  | .boolean => spelling.boolean
  | .string facets => spelling.string facets
  | .number facets => spelling.number facets
  | .literals values => spelling.literals (values.map Json.render)
  | .named name => spelling.named name
  | .union members => spelling.joinUnion (spellMembers spelling members)
  | .array item nonEmpty maxItems => spelling.array (item.spell spelling) nonEmpty maxItems
  | .record none => spelling.record none
  | .record (some values) => spelling.record (some (values.spell spelling))
  | .object properties bare => spelling.object (spellProperties spelling properties) bare

/-- Texts of the members of a union. -/
def spellMembers (spelling : Spelling) : List Fragment → List String
  | [] => []
  | member :: rest => member.spell spelling :: spellMembers spelling rest

/-- Lines of the properties of an object. -/
def spellProperties (spelling : Spelling) : List (PropertyFacts × Fragment) → List String
  | [] => []
  | (facts, property) :: rest =>
    spelling.property facts (property.spell spelling) :: spellProperties spelling rest
end

end Fragment

end TypedClient
