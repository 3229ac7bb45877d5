/-
  TypedClient.Schema.AllOf

  Flattening an `allOf` composition into one schema.

  Members are merged left to right, each one flattened first, with a reference replaced by its
  target below the keywords beside it. The keywords of the schema that holds the composition come
  last. A reference that is being followed already contributes nothing, so that compositions may
  refer to each other; `fuel` bounds the depth of the recursion, and the answer is `none` when it
  runs out.
-/
import TypedClient.Reference
import TypedClient.Schema.Cleanup
import TypedClient.Schema.Read

namespace TypedClient

/-- The schema that an internal reference leads to. -/
def Reference.resolveNode (document : Json) (reference : String) : Option SchemaNode :=
  (Reference.resolve document reference).map SchemaNode.ofJson

namespace Schema

mutual
/-- Flattens a schema while the references in `following` are being followed. -/
def flattenWithin (document : Json) : Nat → List String → Schema → Option Schema
  | 0, _, _ => none
  | fuel + 1, following, schema =>
    match schema.allOf with
    | none => some schema
    | some members => do
      let contributions ← members.mapM (memberWithin document fuel following)
      let merged := (contributions.filterMap id).foldl merge empty
      some (merge merged { schema with allOf := none })

/-- What one member contributes: nothing for a truth value, and for a reference that is being
    followed, leads nowhere or leads to a truth value. -/
def memberWithin (document : Json) : Nat → List String → SchemaNode → Option (Option Schema)
  | 0, _, _ => none
  | _ + 1, _, .bool _ => some none
  | fuel + 1, following, .object member =>
    let member := member.cleanup
    let siblings := { member with ref := none }
    match member.ref with
    | none => (flattenWithin document fuel following siblings).map some
    | some reference =>
      if following.contains reference then some none
      else match Reference.resolveNode document reference with
        | some (.object target) => do
          let target ← memberWithin document fuel (reference :: following) (.object target)
          -- The keywords beside the reference are followed without it.
          let siblings ← flattenWithin document fuel following siblings
          some (some (match target with
            | some target => merge siblings target
            | none => siblings))
        | _ => some none
end

/-- The schema with its `allOf` composition flattened. -/
def resolveAllOf? (document : Json) (fuel : Nat) (schema : Schema) : Option Schema :=
  flattenWithin document fuel [] schema

end Schema

/-- The node with the composition of its schema flattened, if it has one. -/
def SchemaNode.flattenAllOf? (document : Json) (fuel : Nat) : SchemaNode → Option SchemaNode
  | .object schema =>
    if schema.allOf.isSome then (schema.resolveAllOf? document fuel).map .object
    else some (.object schema)
  | node => some node

end TypedClient
