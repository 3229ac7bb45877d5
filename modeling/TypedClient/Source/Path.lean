/-
  TypedClient.Source.Path

  Paths of files as text: their segments, the name of the file, its extension and its directory.
-/

namespace TypedClient.Source.Path

/-- Splits at every slash; there is always one segment. -/
def segments (path : String) : List String := path.splitOn "/"

/-- Does the path start at the root? -/
def isRooted (path : String) : Bool := path.toList.head? == some '/'

/-- Is the segment at this index a step of the path? Empty ones are not, and neither is a single
    dot, unless the path starts with it. -/
def isStep (index : Nat) (segment : String) : Bool :=
  !segment.isEmpty && (segment != "." || index == 0)

/-- The last part of a path, when it names something. -/
def fileName? (path : String) : Option String :=
  match ((segments path).filter fun segment => !segment.isEmpty && segment != ".").getLast? with
  | some name => if name == ".." then none else some name
  | none => none

/-- What follows the last dot of a file name, unless nothing stands before that dot. -/
def extension? (name : String) : Option String :=
  let reversed := name.toList.reverse
  match reversed.span (· != '.') with
  | (_, []) => none
  | (_, [_]) => none
  | (ending, _ :: _ :: _) => if name == ".." then none else some (String.ofList ending.reverse)

/-- The first segments of a path, up to the one at an index, joined as they were. -/
def upTo (path : String) (index : Nat) : String := "/".intercalate ((segments path).take (index + 1))

/-- The directory that holds what a path names: empty for a single name, and none for a path
    without steps. -/
def parent? (path : String) : Option String :=
  let steps := (segments path).zipIdx.filter fun (segment, index) => isStep index segment
  match steps.reverse with
  | [] => none
  | [_] => some (if isRooted path then "/" else "")
  | _ :: (_, index) :: _ => some (upTo path index)

end TypedClient.Source.Path
