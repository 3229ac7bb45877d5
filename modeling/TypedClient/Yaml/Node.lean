/-
  TypedClient.Yaml.Node

  Nodes of a YAML document. An anchor is known by a number; a reference stands for the node that
  carries the number.
-/

namespace TypedClient.Yaml

/-- A node of a document. -/
inductive Node where
  | scalar (anchor : Option Nat) (tag : Option String) (text : String) (plain : Bool)
  | sequence (anchor : Option Nat) (tag : Option String) (items : List Node)
  | mapping (anchor : Option Nat) (tag : Option String) (entries : List (Node × Node))
  | reference (anchor : Nat)
  deriving Inhabited

namespace Node

/-- The node that stands where nothing is written. -/
def empty : Node := .scalar none none "" true

mutual
/-- Number of marks in a node: one for a scalar or a reference, two for a collection beside those
    of its contents. -/
def marks : Node → Nat
  | .scalar .. => 1
  | .reference _ => 1
  | .sequence _ _ items => 2 + marksOfItems items
  | .mapping _ _ entries => 2 + marksOfEntries entries

/-- Number of marks in a list of items. -/
def marksOfItems : List Node → Nat
  | [] => 0
  | item :: rest => item.marks + marksOfItems rest

/-- Number of marks in a list of entries. -/
def marksOfEntries : List (Node × Node) → Nat
  | [] => 0
  | (key, value) :: rest => key.marks + value.marks + marksOfEntries rest
end

/-- A node under its anchor's number, if it has one. -/
def under (anchor : Option Nat) (node : Node) : List (Nat × Node) :=
  (anchor.map (·, node)).toList

mutual
/-- The nodes that carry an anchor, in the order in which they begin. -/
def anchored : Node → List (Nat × Node)
  | .scalar anchor tag text plain => under anchor (.scalar anchor tag text plain)
  | .sequence anchor tag items =>
    under anchor (.sequence anchor tag items) ++ anchoredItems items
  | .mapping anchor tag entries =>
    under anchor (.mapping anchor tag entries) ++ anchoredEntries entries
  | .reference _ => []

/-- The nodes that carry an anchor in a list of items. -/
def anchoredItems : List Node → List (Nat × Node)
  | [] => []
  | item :: rest => item.anchored ++ anchoredItems rest

/-- The nodes that carry an anchor in a list of entries. -/
def anchoredEntries : List (Node × Node) → List (Nat × Node)
  | [] => []
  | (key, value) :: rest => key.anchored ++ value.anchored ++ anchoredEntries rest
end

/-- The node that a number stands for: the last one that carries it. -/
def find? (anchor : Nat) (document : Node) : Option Node := document.anchored.reverse.lookup anchor

end Node

end TypedClient.Yaml
