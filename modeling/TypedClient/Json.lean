/-
  TypedClient.Json

  Values of a JSON document. Objects keep the order of their keys, and numbers keep apart the
  integers that fit 64 bits and binary64 numbers.
-/
import TypedClient.Decimal.Shortest
import TypedClient.Keyed

namespace TypedClient

/-- A number of a document: an integer from `-2 ^ 63` to `2 ^ 64 - 1`, or a binary64 number. -/
inductive Number where
  | int (value : Int)
  | dec (value : Decimal.Binary64)
  deriving DecidableEq, Repr, Inhabited

/-- Digits of an integer, or the shortest decimal of a binary64 number. -/
def Number.render : Number → String
  | .int value => toString value
  | .dec value => value.render

/-- A value of a document. -/
inductive Json where
  | null
  | bool (value : Bool)
  | num (value : Number)
  | str (value : String)
  | arr (items : List Json)
  | obj (fields : List (String × Json))
  deriving Inhabited

namespace Json

/-- The value under a key, when this is an object that has the key. -/
def get? (key : String) : Json → Option Json
  | .obj fields => Keyed.get? key fields
  | _ => none

/-- The text, when this is one. -/
def asString? : Json → Option String
  | .str value => some value
  | _ => none

/-- The truth value, when this is one. -/
def asBool? : Json → Option Bool
  | .bool value => some value
  | _ => none

/-- The fields, when this is an object. -/
def asObject? : Json → Option (Keyed Json)
  | .obj fields => some fields
  | _ => none

/-- The items, when this is an array. -/
def asArray? : Json → Option (List Json)
  | .arr items => some items
  | _ => none

/-- Is this `null`? -/
def isNull : Json → Bool
  | .null => true
  | _ => false

/-! ## Size -/

mutual
/-- Number of values in a value, itself included. -/
def size : Json → Nat
  | .arr items => 1 + sizeItems items
  | .obj fields => 1 + sizeFields fields
  | _ => 1

/-- Number of values in a list of items. -/
def sizeItems : List Json → Nat
  | [] => 0
  | item :: rest => item.size + sizeItems rest

/-- Number of values in a list of fields. -/
def sizeFields : List (String × Json) → Nat
  | [] => 0
  | (_, value) :: rest => value.size + sizeFields rest
end

/-! ## Objects without repeated keys -/

mutual
/-- No object at any depth has two fields with one key. -/
def Distinct : Json → Prop
  | .arr items => DistinctItems items
  | .obj fields => (Keyed.keys fields).Nodup ∧ DistinctFields fields
  | _ => True

/-- Every item has distinct keys. -/
def DistinctItems : List Json → Prop
  | [] => True
  | item :: rest => item.Distinct ∧ DistinctItems rest

/-- Every field's value has distinct keys. -/
def DistinctFields : List (String × Json) → Prop
  | [] => True
  | (_, value) :: rest => value.Distinct ∧ DistinctFields rest
end

end Json

end TypedClient
