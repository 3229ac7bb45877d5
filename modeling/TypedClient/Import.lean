/-
  TypedClient.Import

  Import statements of a generated module.
-/

namespace TypedClient

/-- One imported name, possibly under another one. -/
structure ImportItem where
  name : String
  localName : Option String := none
  deriving DecidableEq, Repr

/-- What an import binds: a whole module, or some of its names. -/
inductive ImportBinding where
  | module (localName : String)
  | names (items : List ImportItem)
  deriving DecidableEq, Repr

/-- An import statement. -/
structure Import where
  binding : ImportBinding
  path : String
  /-- Only types are imported. -/
  typeOnly : Bool := false
  deriving DecidableEq, Repr

/-- The name, with the one it is imported under. -/
def ImportItem.render (item : ImportItem) : String :=
  match item.localName with
  | some localName => item.name ++ " as " ++ localName
  | none => item.name

namespace Import

/-- Imports a whole module under a name. -/
def ofModule (localName path : String) : Import where
  binding := .module localName
  path := path

/-- Imports some names of a module. -/
def ofNames (names : List String) (path : String) : Import where
  binding := .names (names.map fun name => ⟨name, none⟩)
  path := path

/-- The statement, importing types only. -/
def asType (statement : Import) : Import := { statement with typeOnly := true }

/-- Text of an import statement. -/
def render (statement : Import) : String :=
  let bound := match statement.binding with
    | .module localName => "* as " ++ localName
    | .names items => "\x7b " ++ ", ".intercalate (items.map ImportItem.render) ++ " \x7d"
  "import " ++ (if statement.typeOnly then "type " else "") ++ bound ++
    " from \"" ++ statement.path ++ "\""

/-- Text of a list of import statements, one a line. -/
def renderAll (statements : List Import) : String := "\n".intercalate (statements.map render)

end Import

end TypedClient
