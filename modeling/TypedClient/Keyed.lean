/-
  TypedClient.Keyed

  Key-value lists in insertion order, the shape of every object of a document. A key is meant to
  occur once; every operation keeps it so.
-/

namespace TypedClient

/-- Key-value pairs in insertion order. -/
abbrev Keyed (α : Type) := List (String × α)

namespace Keyed

variable {α β : Type}

/-- Value under a key. -/
def get? (key : String) (pairs : Keyed α) : Option α := pairs.lookup key

/-- Is there a value under the key? -/
def has (key : String) (pairs : Keyed α) : Bool := pairs.any (·.1 == key)

/-- The keys in order. -/
def keys (pairs : Keyed α) : List String := pairs.map (·.1)

/-- The values in order. -/
def values (pairs : Keyed α) : List α := pairs.map (·.2)

/-- Puts a value under a key. A key that is there keeps its place, a new one goes to the end. -/
def insert (key : String) (value : α) : Keyed α → Keyed α
  | [] => [(key, value)]
  | pair :: rest => if pair.1 == key then (key, value) :: rest else pair :: insert key value rest

/-- Puts a value under a key that is not there yet; a key that is there keeps its value. -/
def insertNew (key : String) (value : α) (pairs : Keyed α) : Keyed α :=
  if has key pairs then pairs else pairs ++ [(key, value)]

/-- Inserts pair after pair, so that a repeated key keeps its first place and its last value. -/
def ofList (pairs : List (String × α)) : Keyed α :=
  pairs.foldl (fun acc pair => acc.insert pair.1 pair.2) []

/-- The pairs of the first list, then those of the second whose key the first does not have. -/
def union (first second : Keyed α) : Keyed α :=
  second.foldl (fun acc pair => acc.insertNew pair.1 pair.2) first

/-- Removes a key; the other pairs keep their order. -/
def erase (key : String) (pairs : Keyed α) : Keyed α := pairs.filter (·.1 != key)

/-- Puts `pair` in the place of the first pair with the key. -/
def replace (key : String) (pair : String × α) : Keyed α → Keyed α
  | [] => []
  | first :: rest => if first.1 == key then pair :: rest else first :: replace key pair rest

/-- Removes a key by moving the last pair into its place. -/
def swapErase (key : String) (pairs : Keyed α) : Keyed α :=
  match pairs.getLast? with
  | none => []
  | some last =>
    if last.1 == key then pairs.dropLast
    else if has key pairs then replace key last pairs.dropLast
    else pairs

/-- The values mapped, each with its key. -/
def mapValues (f : α → β) (pairs : Keyed α) : Keyed β := pairs.map fun pair => (pair.1, f pair.2)

end Keyed

end TypedClient
