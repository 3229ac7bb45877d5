/-
  TypedClient.Registry.Walk

  Registering a schema with everything it depends on. Main statements: a walk only appends, and a
  dependency is stored before the schemas that use it.

  Every recursion is bounded by `fuel`; the answer is `none` when it runs out.
-/
import TypedClient.Registry
import TypedClient.Schema.AllOf

namespace TypedClient

/-- What a walk does at a schema. -/
inductive Visit where
  /-- Walk these positions, each with the name it would get. -/
  | positions (positions : List (SchemaNode × Option String))
  /-- Register the schema under the name of its position. -/
  | enumeration
  /-- Register what the reference leads to. -/
  | reference (reference : String)
  /-- Flatten the composition, then walk and register it. -/
  | composition

/-- What a walk does at a cleaned schema whose position has the given name, if any. A property is
    named after its parent and its key, union members share a name, and array items and map values
    have none. -/
def Schema.visit (schema : Schema) (name : Option String) : Visit :=
  match schema.properties with
  | some properties => .positions <| properties.map fun (key, property) =>
    (property, name.map (· ++ Text.identifier key))
  | none =>
    if schema.typeName? == some "object" then
      .positions <| schema.additionalProperties.toList.map (·, none)
    else if schema.isEnumLike then .enumeration
    else match schema.ref with
      | some reference => .reference reference
      | none =>
        if schema.allOf.isSome then .composition
        else match schema.unionMembers? with
          | some members => .positions <| members.map (·, name.map Text.enumChildName)
          | none => .positions <| match schema.items with
            | some (.single item) => [(item, none)]
            | some (.tuple items) => items.map (·, none)
            | none => []

namespace Registry

/-- How a walk below some position goes on. -/
abbrev Walker := Registry → SchemaNode → Option String → Option Registry

/-- Registers what a reference leads to, given how its target is flattened and walked. A reference
    out of the document, one that was walked before and one whose name is taken change nothing. -/
def registerWith (walk : Walker) (flatten : SchemaNode → Option SchemaNode) (document : Json)
    (registry : Registry) (reference : String) (asStruct : Bool) : Option Registry :=
  let name := Reference.name reference
  if !Reference.isInternal reference || registry.has name || registry.visited.contains reference
  then some registry
  else
    -- Marked before its target is walked, so that a cycle of references ends here.
    let registry := registry.visit reference
    match Reference.resolveNode document reference with
    | none => some registry
    | some target => do
      let target ← flatten target.cleanup
      -- Dependencies come first; one of them may have taken the name by then.
      let registry ← walk (registry.keepTarget reference target) target (some name)
      some (registry.insertNew name ⟨target, !asStruct, target.isEnumLike⟩)

/-- Registers everything that a schema depends on. An enumeration or a composition at a position
    with a name is registered itself. -/
def walk (document : Json) : Nat → Walker
  | 0, _, _, _ => none
  | fuel + 1, registry, node, name =>
    match node.toSchema? with
    | none => some registry
    | some schema =>
      match schema.visit name with
      | .positions positions =>
        positions.foldlM (fun registry position =>
          walk document fuel registry position.1 position.2) registry
      | .enumeration =>
        match name with
        | some name => some (registry.insertNew name ⟨.object schema, false, true⟩)
        | none => some registry
      | .reference reference =>
        registerWith (walk document fuel) (SchemaNode.flattenAllOf? document fuel) document
          registry reference true
      | .composition => do
        let merged ← schema.resolveAllOf? document fuel
        match name with
        | none => walk document fuel registry (.object merged) none
        | some parent =>
          let name := Text.enumChildName parent
          -- An equal name is taken for the same composition, seen before.
          if registry.has name then some registry
          else
            let registry ← walk document fuel registry (.object merged) (some name)
            some (registry.insertNew name ⟨.object merged, true, merged.isEnumLike⟩)

/-- Registers what a reference leads to. -/
def register (document : Json) (fuel : Nat) (registry : Registry) (reference : String)
    (asStruct : Bool) : Option Registry :=
  registerWith (walk document fuel) (SchemaNode.flattenAllOf? document fuel) document registry
    reference asStruct

/-- Registers a schema under a name, and answers the name to refer to it by. A schema that is a
    bare reference has its target registered instead. A schema added as a structure is declared as
    an alias, any other one as a class. -/
def add (document : Json) (fuel : Nat) (registry : Registry) (name : String) (root : SchemaNode)
    (asStruct : Bool) : Option (String × Registry) :=
  let root := root.cleanup
  match root.object?.bind (·.ref) with
  | some reference => do
    let registry ← registry.register document fuel reference false
    some (Reference.name reference, registry)
  | none =>
    if registry.has name then some (name, registry)
    else do
      let root ← root.flattenAllOf? document fuel
      let registry ← registry.walk document fuel root (some name)
      some (name, registry.insertNew name ⟨root, !asStruct, root.isEnumLike⟩)

end Registry

/-- Depth of recursion that is ample for a document: every value of it entered once for each
    level that a document can nest. -/
def recursionBudget (document : Json) : Nat := 512 * (document.size + 16)

end TypedClient
