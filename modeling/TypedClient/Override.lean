/-
  TypedClient.Override

  Lists in which a later item takes the place of an earlier one with the same key.
-/

namespace TypedClient

variable {α κ : Type}

/-- Puts an item in the place of those with its key, or at the end when there are none. -/
def override [BEq κ] (key : α → κ) (kept : List α) (item : α) : List α :=
  if kept.any (key · == key item) then
    kept.map fun other => if key other == key item then item else other
  else kept ++ [item]

/-- One item for each key, at the place of the first one with that key and equal to the last. -/
def overrideAll [BEq κ] (key : α → κ) (items : List α) : List α :=
  items.foldl (override key) []

end TypedClient
