/-
  TypedClient.Command.FileTree

  A tree of files as a value, with the rules by which paths lead through it, and runs on such a
  tree. Paths start at the root of the tree; nothing outside of it can be reached.
-/
import TypedClient.Command

namespace TypedClient.Command

/-- Names from the root of a tree to a file or directory. -/
abbrev Place := List String

/-- Files with their texts, and directories; those on the way to a file need not be listed. -/
structure FileTree where
  files : List (Place × String) := []
  directories : List Place := []
  deriving DecidableEq, Repr, Inhabited

namespace FileTree

/-- Text of the file at a place. -/
def file? (place : Place) (tree : FileTree) : Option String := tree.files.lookup place

/-- Is there a directory at a place? -/
def isDirectory (place : Place) (tree : FileTree) : Bool :=
  place.isEmpty || tree.directories.contains place ||
    tree.files.any fun file => place.isPrefixOf file.1 && place != file.1

/-- Puts a file at a place, over the one that is there. -/
def put (place : Place) (text : String) (tree : FileTree) : FileTree :=
  if (tree.file? place).isSome then
    { tree with files := tree.files.map fun file => if file.1 == place then (place, text) else file }
  else { tree with files := tree.files ++ [(place, text)] }

/-- Longest name of a file in bytes. -/
def longestName : Nat := 255

/-- The place that one step leads to: upwards, or to what has the name. -/
def next (place : Place) (name : String) : Place :=
  if name == ".." then place.dropLast else place ++ [name]

/-- Takes a step from a directory. -/
def enter (tree : FileTree) (place : Place) (name : String) : Except FileProblem Place :=
  if longestName < name.utf8ByteSize then .error .nameTooLong
  else
    let place := next place name
    if tree.isDirectory place then .ok place
    else if (tree.file? place).isSome then .error .notDirectory
    else .error .notFound

/-- The steps of a path, and whether it has to lead to a directory. -/
def stepsOf (path : String) : List String × Bool :=
  let segments := Source.Path.segments path
  let steps := segments.filter fun segment => !segment.isEmpty && segment != "."
  (steps, segments.getLast? != steps.getLast? || steps.getLast? == some "..")

/-- Refuses a path that no system can be asked for. -/
def askable (path : String) : Except FileProblem Unit :=
  if path.toList.contains (Char.ofNat 0) then
    .error (.other "file name contained an unexpected NUL byte")
  else .ok ()

/-- The directory that a path leads to before its last step, with that step. -/
def locate (tree : FileTree) (path : String) : Except FileProblem (Place × Option String) := do
  askable path
  if path.isEmpty || Source.Path.isRooted path then .error .notFound
  else
    let (steps, _) := stepsOf path
    let place ← steps.dropLast.foldlM tree.enter []
    .ok (place, steps.getLast?)

/-- Text of the file that a path leads to. -/
def read (tree : FileTree) (path : String) : Except FileProblem String := do
  match ← tree.locate path with
  | (_, none) => .error .isDirectory
  | (place, some name) =>
    match tree.file? (next place name) with
    | some text => if (stepsOf path).2 then .error .notDirectory else .ok text
    | none => do
      let _ ← tree.enter place name
      .error .isDirectory

/-- Writes the file that a path leads to. -/
def write (path text : String) (tree : FileTree) : Except FileProblem FileTree := do
  match ← tree.locate path with
  | (_, none) => .error .isDirectory
  | (place, some name) =>
    if longestName < name.utf8ByteSize then .error .nameTooLong
    else if path.endsWith "/" then .error .isDirectory
    else if (stepsOf path).2 then do
      let _ ← tree.enter place name
      .error .isDirectory
    else if tree.isDirectory (next place name) then .error .isDirectory
    else .ok (tree.put (next place name) text)

/-- Creates the directories on the way along steps. -/
def createAlong (place : Place) : List String → FileTree → Except FileProblem FileTree
  | [], tree => .ok tree
  | name :: rest, tree =>
    if longestName < name.utf8ByteSize then .error .nameTooLong
    else
      let place := next place name
      -- The file is what was to be created, or stands on the way to it.
      if (tree.file? place).isSome then
        .error (if rest.isEmpty then .alreadyExists else .notDirectory)
      else if tree.isDirectory place then createAlong place rest tree
      else createAlong place rest { tree with directories := tree.directories ++ [place] }

/-- Creates the directory that a path leads to, and those on the way. -/
def createDirectories (path : String) (tree : FileTree) : Except FileProblem FileTree := do
  askable path
  createAlong [] (stepsOf path).1 tree

end FileTree

/-! ## Runs on a tree -/

/-- The surroundings of a run as a value: the files, and what was printed. -/
structure World where
  tree : FileTree
  printed : String := ""

/-- Changes the files, or leaves them when that fails. -/
def World.change (change : FileTree → Except FileProblem FileTree) :
    StateM World (Except FileProblem Unit) := do
  match change (← get).tree with
  | .ok tree =>
    modify fun world => { world with tree := tree }
    return .ok ()
  | .error problem => return .error problem

/-- A run on a tree of files. Nothing can be had from the web. -/
def treeHost : Host (StateM World) where
  read path := do return (← get).tree.read path
  createDirectories path := World.change (FileTree.createDirectories path)
  write path text := World.change (FileTree.write path text)
  fetch _ := return .error "no network"
  print text := modify fun world => { world with printed := world.printed ++ text }

/-- The outcome of a run on a tree, and the surroundings after it. -/
def runOn (tree : FileTree) (arguments : Arguments) : Except Error Unit × World :=
  (run treeHost arguments).run.run ⟨tree, ""⟩

end TypedClient.Command
