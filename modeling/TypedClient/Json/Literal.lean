/-
  TypedClient.Json.Literal

  Numbers and strings of JSON text.

  A number without a fraction and an exponent is an integer when it fits 64 bits. Any other one is
  binary64: the leading digits that fit 64 bits are rounded, then scaled by the power of ten that
  the point, the exponent and the digits left out amount to.
-/
import TypedClient.Json
import TypedClient.Text.Digits

namespace TypedClient.Json

/-- Value of a decimal digit. -/
def digitValue (c : Char) : Nat := c.toNat - 48

/-- Reads digits onto `value` as long as the result fits 64 bits: the result, and the digits that
    are left. -/
def takeDigits (value : Nat) : List Char → Nat × List Char
  | [] => (value, [])
  | c :: rest =>
    let next := value * 10 + digitValue c
    if Nat.pow 2 64 ≤ next then (value, c :: rest) else takeDigits next rest

/-- Value of a list of digits. -/
def digitsValue (digits : List Char) : Nat :=
  digits.foldl (fun value c => value * 10 + digitValue c) 0

/-- Parts of a number: its sign, the digits before and after the point, and the sign and digits of
    the exponent. -/
structure Literal where
  negative : Bool
  whole : List Char
  fraction : Option (List Char)
  exponent : Option (Bool × List Char)

/-- The largest exponent that is told apart from a larger one. -/
def largestExponent : Nat := Nat.pow 2 31 - 1

/-- The binary64 number with a significand below `2 ^ 64`, scaled by a power of ten. -/
def scaled (significand : Nat) (power : Int) : Option Decimal.Binary64 :=
  (Decimal.Binary64.round false significand 1).bind (·.scaleByTen power)

/-- The number that the parts stand for; nothing when it is too large. -/
def Literal.value (literal : Literal) : Option Number :=
  let (significand, leftOut) := takeDigits 0 literal.whole
  match literal.fraction, literal.exponent, leftOut with
  | none, none, [] =>
    -- Minus zero and what is below the least integer have no integer form.
    if literal.negative && (significand = 0 || Nat.pow 2 63 < significand) then
      (scaled significand 0).map (.dec ·.neg)
    else some (.int (if literal.negative then -significand else significand))
  | fraction, exponent, leftOut =>
    let digits := fraction.getD []
    let (significand, unread) := takeDigits significand digits
    -- A digit left out before the point is worth one power, each one read after it takes one.
    let power : Int := leftOut.length - (digits.length - unread.length : Nat)
    let size :=
      match exponent with
      | none => scaled significand power
      | some (down, exponentDigits) =>
        let shift := digitsValue exponentDigits
        if largestExponent < shift then
          if significand ≠ 0 && !down then none else some (Decimal.Binary64.zero false)
        else scaled significand (if down then power - shift else power + shift)
    size.map fun value => .dec (if literal.negative then value.neg else value)

/-- The digits at the start of a text, at least one, and the rest. -/
def readDigits (text : List Char) : Option (List Char × List Char) :=
  match text.span Char.isDigit with
  | ([], _) => none
  | (digits, rest) => some (digits, rest)

/-- Digits before the point: a zero stands alone. -/
def readWhole : List Char → Option (List Char × List Char)
  | '0' :: rest => if rest.head?.any Char.isDigit then none else some (['0'], rest)
  | text => readDigits text

/-- Digits after a point, if there is one. -/
def readFraction : List Char → Option (Option (List Char) × List Char)
  | '.' :: rest => (readDigits rest).map fun (digits, rest) => (some digits, rest)
  | text => some (none, text)

/-- The sign, down or not, and the digits after the letter of an exponent. -/
def readExponentBody : List Char → Option (Option (Bool × List Char) × List Char)
  | '+' :: rest => (readDigits rest).map fun (digits, rest) => (some (false, digits), rest)
  | '-' :: rest => (readDigits rest).map fun (digits, rest) => (some (true, digits), rest)
  | text => (readDigits text).map fun (digits, rest) => (some (false, digits), rest)

/-- An exponent, if there is one. -/
def readExponent : List Char → Option (Option (Bool × List Char) × List Char)
  | 'e' :: rest => readExponentBody rest
  | 'E' :: rest => readExponentBody rest
  | text => some (none, text)

/-- A number at the start of a text. -/
def readNumber (text : List Char) : Option (Number × List Char) := do
  let (negative, text) := match text with
    | '-' :: rest => (true, rest)
    | _ => (false, text)
  let (whole, text) ← readWhole text
  let (fraction, text) ← readFraction text
  let (exponent, text) ← readExponent text
  let value ← Literal.value ⟨negative, whole, fraction, exponent⟩
  some (value, text)

/-! ## Strings -/

/-- Value of four hexadecimal digits. -/
def hexUnit? (a b c d : Char) : Option Nat := Text.numberIn? 16 [a, b, c, d]

/-- Is this the first half of a surrogate pair? -/
def isLeadUnit (unit : Nat) : Bool := 0xD800 ≤ unit && unit < 0xDC00

/-- Is this the second half of a surrogate pair? -/
def isTrailUnit (unit : Nat) : Bool := 0xDC00 ≤ unit && unit < 0xE000

/-- The character that a surrogate pair stands for. -/
def pairChar (lead trail : Nat) : Char :=
  Char.ofNat (0x10000 + (lead - 0xD800) * 0x400 + (trail - 0xDC00))

/-- Rest of a string after its opening quote, with what was read held in reverse. Control
    characters, unknown escapes and lone surrogates are refused. -/
def readStringFrom (read : List Char) : List Char → Option (String × List Char)
  | '"' :: rest => some (String.ofList read.reverse, rest)
  | '\\' :: '"' :: rest => readStringFrom ('"' :: read) rest
  | '\\' :: '\\' :: rest => readStringFrom ('\\' :: read) rest
  | '\\' :: '/' :: rest => readStringFrom ('/' :: read) rest
  | '\\' :: 'b' :: rest => readStringFrom ('\x08' :: read) rest
  | '\\' :: 'f' :: rest => readStringFrom ('\x0c' :: read) rest
  | '\\' :: 'n' :: rest => readStringFrom ('\n' :: read) rest
  | '\\' :: 'r' :: rest => readStringFrom ('\r' :: read) rest
  | '\\' :: 't' :: rest => readStringFrom ('\t' :: read) rest
  | '\\' :: 'u' :: a :: b :: c :: d :: rest =>
    match hexUnit? a b c d with
    | none => none
    | some unit =>
      if isTrailUnit unit then none
      else if isLeadUnit unit then
        match rest with
        | '\\' :: 'u' :: e :: f :: g :: h :: rest =>
          match hexUnit? e f g h with
          | none => none
          | some trail =>
            if isTrailUnit trail then readStringFrom (pairChar unit trail :: read) rest else none
        | _ => none
      else readStringFrom (Char.ofNat unit :: read) rest
  | '\\' :: _ => none
  | c :: rest => if c.toNat < 32 then none else readStringFrom (c :: read) rest
  | [] => none

end TypedClient.Json
