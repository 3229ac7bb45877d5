/-
  TypedClient.Yaml.Scalar

  The value that the text of a scalar stands for. Without quotes and without a tag, a text that
  spells nothing, a truth value or a number is that value; any other text stands for itself.
-/
import TypedClient.Json.Literal

namespace TypedClient.Yaml

/-! ## Integers -/

/-- Integers that are read at all: those of 128 bits, with or without a sign. -/
def isReadable (value : Int) : Bool := -Int.pow 2 127 ≤ value && value < Int.pow 2 128

/-- Value of digits in a base, of which there is at least one. -/
def digitsIn? (base : Nat) (digits : List Char) : Option Nat :=
  if digits.isEmpty then none else Text.numberIn? base digits

/-- Drops one sign. -/
def dropSign : List Char → List Char
  | '+' :: rest => rest
  | '-' :: rest => rest
  | text => text

/-- Is this a zero with further digits, which is a text and not a number? -/
def isPadded (text : List Char) : Bool :=
  match dropSign text with
  | '0' :: rest => !rest.isEmpty && rest.all Char.isDigit
  | _ => false

/-- Value of a number without a sign: hexadecimal, octal, binary or decimal. -/
def magnitude? (text : List Char) : Option Nat :=
  match text with
  | '0' :: 'x' :: digits => digitsIn? 16 digits
  | '0' :: 'o' :: digits => digitsIn? 8 digits
  | '0' :: 'b' :: digits => digitsIn? 2 digits
  | digits => digitsIn? 10 digits

/-- The integer that a text spells. -/
def integer? (text : List Char) : Option Int :=
  let value? : Option Int :=
    match text with
    | '-' :: digits => (magnitude? digits).map fun n => -(n : Int)
    | '+' :: digits => (magnitude? digits).map fun n => (n : Int)
    | digits => (magnitude? digits).map fun n => (n : Int)
  if isPadded text then none else value?.filter isReadable

/-! ## Decimal numbers -/

/-- A decimal number, or what stands in the place of one. -/
inductive ExtendedNumber where
  | finite (value : Decimal.Binary64)
  | infinite
  | notANumber

/-- The exponent at the end of a decimal number; none is zero. -/
def exponent? (text : List Char) : Option Int :=
  match text with
  | [] => some 0
  | c :: rest =>
    if c != 'e' && c != 'E' then none
    else match rest with
      | '-' :: digits => (digitsIn? 10 digits).map fun n => -(n : Int)
      | '+' :: digits => (digitsIn? 10 digits).map fun n => (n : Int)
      | digits => (digitsIn? 10 digits).map fun n => (n : Int)

/-- The decimal number without a sign that a text spells, given the sign. Digits stand before the
    point, after it, or on both sides. -/
def unsigned? (negative : Bool) (text : List Char) : Option Decimal.Binary64 :=
  let (whole, rest) := text.span Char.isDigit
  let (fraction, rest) := match rest with
    | '.' :: rest => rest.span Char.isDigit
    | _ => ([], rest)
  if whole.isEmpty && fraction.isEmpty then none
  else
    (exponent? rest).bind fun exponent =>
      Decimal.Binary64.ofDecimal negative (Json.digitsValue (whole ++ fraction))
        (exponent - fraction.length)

/-- The words for what is no finite number. -/
def special? (text : String) : Option ExtendedNumber :=
  let bare := if text.startsWith "+" || text.startsWith "-" then (text.drop 1).toString else text
  if bare == ".inf" || bare == ".Inf" || bare == ".INF" then some .infinite
  else if text == ".nan" || text == ".NaN" || text == ".NAN" then some .notANumber
  else none

/-- The decimal number that a text spells. -/
def decimal? (text : String) : Option ExtendedNumber :=
  (special? text).or <| Option.map ExtendedNumber.finite <|
    match text.toList with
    | '-' :: rest => unsigned? true rest
    | '+' :: rest => unsigned? false rest
    | rest => unsigned? false rest

/-! ## Values -/

/-- An integer of 64 bits as a value; a larger one is refused. -/
def integerValue? (value : Int) : Option Json :=
  if -Int.pow 2 63 ≤ value && value < Int.pow 2 64 then some (.num (.int value)) else none

/-- A decimal number as a value; what is no finite number is nothing. -/
def ExtendedNumber.value : ExtendedNumber → Json
  | .finite value => .num (.dec value)
  | .infinite => .null
  | .notANumber => .null

/-- Is this a word for nothing? -/
def isNullWord (text : String) : Bool :=
  text == "null" || text == "Null" || text == "NULL" || text == "~"

/-- The truth value that a word stands for. -/
def truth? (text : String) : Option Bool :=
  if text == "true" || text == "True" || text == "TRUE" then some true
  else if text == "false" || text == "False" || text == "FALSE" then some false
  else none

/-- The value of a text without quotes and tag. -/
def plainValue? (text : String) : Option Json :=
  if text.isEmpty || isNullWord text then some .null
  else match truth? text with
    | some value => some (.bool value)
    | none =>
      match integer? text.toList with
      | some value => integerValue? value
      | none =>
        match (decimal? text).filter fun _ => !isPadded text.toList with
        | some number => some number.value
        | none => some (.str text)

/-- Is the tag one of an application's own? It starts with an exclamation mark, and its bytes are
    UTF-8. -/
def isOwnTag (tag : String) : Bool :=
  tag.startsWith "!" &&
    (String.fromUTF8? ⟨(tag.toList.map fun c => c.toNat.toUInt8).toArray⟩).isSome

/-- The value of a scalar. The tags of the four scalar types ask for their type; a tag of an
    application's own is refused; any other tag says that the text stands for itself. -/
def scalarValue? (tag : Option String) (text : String) (plain : Bool) : Option Json :=
  match tag with
  | none => if plain then plainValue? text else some (.str text)
  | some tag =>
    if isOwnTag tag then none
    else if tag == "tag:yaml.org,2002:bool" then (truth? text).map .bool
    else if tag == "tag:yaml.org,2002:int" then (integer? text.toList).bind integerValue?
    else if tag == "tag:yaml.org,2002:float" then (decimal? text).map (·.value)
    else if tag == "tag:yaml.org,2002:null" then if isNullWord text then some .null else none
    else if tag.startsWith "!" && plain then plainValue? text
    else some (.str text)

end TypedClient.Yaml
