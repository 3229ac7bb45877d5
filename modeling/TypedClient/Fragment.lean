/-
  TypedClient.Fragment

  What a schema means for the generated code, before any flavor decides how it is spelled.
-/
import TypedClient.Json

namespace TypedClient

/-- Constraints of a text. -/
structure StringFacets where
  minLength : Option Nat := none
  maxLength : Option Nat := none
  pattern : Option String := none
  /-- The text stands for raw bytes. -/
  binary : Bool := false
  deriving Inhabited

/-- A limit of a number, which the number may not reach when it is exclusive. -/
structure Bound where
  value : Number
  exclusive : Bool
  deriving DecidableEq, Repr, Inhabited

/-- Constraints of a number. -/
structure NumberFacets where
  integer : Bool := false
  minimum : Option Bound := none
  maximum : Option Bound := none
  deriving DecidableEq, Repr, Inhabited

/-- What is known of a property besides its fragment. -/
structure PropertyFacts where
  key : String
  description : Option String := none
  isOptional : Bool := false
  isNullable : Bool := false
  default : Option Json := none
  deriving Inhabited

/-- The meaning of a schema. -/
inductive Fragment where
  | unknown
  | never
  | null
  | boolean
  | string (facets : StringFacets)
  | number (facets : NumberFacets)
  /-- One of some literals, at least one. -/
  | literals (values : List Json)
  /-- A declaration, by its name. -/
  | named (name : String)
  /-- One of some fragments, at least one. -/
  | union (members : List Fragment)
  | array (item : Fragment) (nonEmpty : Bool) (maxItems : Option Nat)
  /-- A map from texts; its values may be unconstrained. -/
  | record (values : Option Fragment)
  /-- An object with properties; a bare one has no wrapper of its own. -/
  | object (properties : List (PropertyFacts × Fragment)) (bare : Bool)
  deriving Inhabited

namespace Fragment

mutual
/-- Names of the declarations that a fragment mentions, in order. -/
def names : Fragment → List String
  | .named name => [name]
  | .union members => namesOfMembers members
  | .array item _ _ => item.names
  | .record (some values) => values.names
  | .object properties _ => namesOfProperties properties
  | _ => []

/-- Names that the members of a union mention. -/
def namesOfMembers : List Fragment → List String
  | [] => []
  | member :: rest => member.names ++ namesOfMembers rest

/-- Names that the properties of an object mention. -/
def namesOfProperties : List (PropertyFacts × Fragment) → List String
  | [] => []
  | (_, property) :: rest => property.names ++ namesOfProperties rest
end

end Fragment

end TypedClient
