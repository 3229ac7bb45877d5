/-
  TypedClient.Generate

  The generated module: imports, the declarations of every registered schema, the client and its
  types.
-/
import TypedClient.Client.Implementation
import TypedClient.Client.Interface
import TypedClient.Fragment.OfSchema
import TypedClient.Operation.Extract
import TypedClient.Spelling.PlainTypes
import TypedClient.Spelling.RuntimeSchemas

namespace TypedClient

/-- The two flavors of generated code. -/
inductive Flavor where
  /-- Schemas that decode and validate at run time. -/
  | schema
  /-- Type declarations only. -/
  | types
  deriving DecidableEq, Repr, Inhabited

/-- How a flavor spells fragments. -/
def Flavor.spelling : Flavor → Spelling
  | .schema => RuntimeSchemas.spelling
  | .types => PlainTypes.spelling

/-- How a flavor writes the client. -/
def Flavor.words : Flavor → Client.Words
  | .schema => Client.runtimeSchemas
  | .types => Client.plainTypes

/-- What can be chosen about the generated code. -/
structure Options where
  /-- Name of the client, which its error starts with too. -/
  name : String := "Client"
  flavor : Flavor := .schema
  deriving DecidableEq, Repr, Inhabited

namespace Registry

/-- Does the entry declare properties? -/
def isObject (entry : Entry) : Bool := entry.schema.object?.any (·.properties.isSome)

/-- The fragment that an entry is declared as. -/
def fragmentOf (registry : Registry) (document : Json) (fuel : Nat) (entry : String × Entry) :
    Option (Option Fragment) :=
  Fragment.ofNode registry document fuel entry.2.schema (some entry.1)
    (if isObject entry.2 && entry.2.isClass then .topLevelClass else .topLevel)

/-- The declaration of an entry with its fragment. -/
def declarationOf (spelling : Spelling) (entry : String × Entry) (fragment : Fragment) :
    Declaration where
  name := entry.1
  source := fragment.spell spelling
  description := entry.2.schema.object?.bind (·.summary?)
  isClass := entry.2.isClass
  isEnum := entry.2.isEnum
  isObject := isObject entry.2

/-- Text of the declaration of an entry, unless it has no fragment. -/
def declare? (registry : Registry) (document : Json) (fuel : Nat) (spelling : Spelling)
    (entry : String × Entry) : Option (Option String) := do
  let fragment ← registry.fragmentOf document fuel entry
  some (fragment.map fun fragment => spelling.declaration (declarationOf spelling entry fragment))

/-- Texts of the declarations of all entries that have a fragment, in order. -/
def declareAll (registry : Registry) (document : Json) (fuel : Nat) (spelling : Spelling) :
    Option (List String) := do
  let declarations ← registry.entries.mapM (registry.declare? document fuel spelling)
  some (declarations.filterMap id)

/-- Text of a schema at a position, unless it has no fragment. -/
def sourceOf (registry : Registry) (document : Json) (fuel : Nat) (spelling : Spelling)
    (node : SchemaNode) (name : Option String) (topLevel : Bool) : Option (Option String) := do
  let fragment ← Fragment.ofNode registry document fuel node name
    (if topLevel then .topLevel else .nested)
  some (fragment.map (·.spell spelling))

end Registry

/-- Text of the module from its parts. -/
def moduleSource (options : Options) (declarations : List String) (operations : List Operation) :
    String :=
  let words := options.flavor.words
  let sections :=
    [Import.renderAll words.imports] ++
    (if declarations.isEmpty then [] else ["\n\n".intercalate declarations]) ++
    [Client.implementationSource words options.name operations,
      Client.typesSource words options.name operations]
  "\n\n".intercalate sections ++ "\n"

/-- The module generated for a document, unless `fuel` runs out. -/
def generateWithin (fuel : Nat) (document : Json) (options : Options) : Option String := do
  let (operations, registry) ← Operation.extractAll document fuel Registry.empty
  let declarations ← registry.declareAll document fuel options.flavor.spelling
  some (moduleSource options declarations operations)

/-- The module generated for a document; nothing for a document whose schemas do not end. -/
def generate? (document : Json) (options : Options) : Option String :=
  generateWithin (recursionBudget document) document options

end TypedClient
