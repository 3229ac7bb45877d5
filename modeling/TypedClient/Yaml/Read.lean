/-
  TypedClient.Yaml.Read

  The value that YAML text stands for. Collections nest at most 128 deep, references included,
  and a text may follow at most a hundred references for each mark in it. Keys are scalars and
  stay as written.
-/
import TypedClient.Keyed
import TypedClient.Yaml.Node.OfTokens
import TypedClient.Yaml.Scalar
import TypedClient.Yaml.Token.Lexer

namespace TypedClient.Yaml

/-- A step that counts the references followed and may fail. -/
abbrev ReferenceCounter := StateT Nat Option

namespace Node

/-- The node itself, or what a reference stands for in the document. -/
def target (document : Node) : Node → ReferenceCounter Node
  | .reference anchor => do
    let followed := (← get) + 1
    if document.marks * 100 < followed then failure
    else
      set followed
      match document.find? anchor with
      | some node => return node
      | none => failure
  | node => return node

/-- The text of a key. -/
def keyText (document node : Node) : ReferenceCounter String := do
  match ← target document node with
  | .scalar _ _ text _ => return text
  | _ => failure

/-- Is the collection free of a tag of an application's own? -/
def isPlainTag (tag : Option String) : Bool := !tag.any isOwnTag

/-- The value of a node in which at most `depth` collections nest. -/
def value (document : Node) : Nat → Node → ReferenceCounter Json
  | depth, node => do
    match ← target document node, depth with
    | .scalar _ tag text plain, _ =>
      match scalarValue? tag text plain with
      | some value => return value
      | none => failure
    | .sequence _ tag items, depth + 1 =>
      if isPlainTag tag then return .arr (← items.mapM (value document depth)) else failure
    | .mapping _ tag entries, depth + 1 =>
      if isPlainTag tag then
        let fields ← entries.mapM fun (key, node) => do
          let key ← keyText document key
          return (key, ← value document depth node)
        return .obj (Keyed.ofList fields)
      else failure
    | _, _ => failure

/-- The deepest nesting that is read. -/
def nestingLimit : Nat := 128

/-- The value that a document stands for. -/
def toJson? (document : Node) : Option Json :=
  ((value document nestingLimit document).run 0).map (·.1)

end Node

/-- The value of the only document in a text; nothing is `null`. -/
def parse (text : String) : Option Json := do
  match ← Node.ofTokens? (← Token.ofText? text) with
  | none => some .null
  | some document => document.toJson?

end TypedClient.Yaml
