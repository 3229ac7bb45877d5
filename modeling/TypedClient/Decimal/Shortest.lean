/-
  TypedClient.Decimal.Shortest

  The shortest decimal that reads back as a given binary64 number, and its text.

  A decimal reads back as the number when it lies in the interval of values that round to it.
  The search tries 1, 2, … 17 digits. On each decimal grid only the two neighbours of the number
  can lie in the interval unless both do, so it is enough to test those two.
-/
import TypedClient.Decimal.Binary64

namespace TypedClient.Decimal

/-- The decimal `digits · 10 ^ power`. -/
structure Scaled where
  digits : Nat
  power : Int
  deriving DecidableEq, Repr, Inhabited

/-- Natural numbers `(a, b)` with `a / b = 10 ^ power / 2 ^ exponent`. -/
def gridRatio (power exponent : Int) : Nat × Nat :=
  (Nat.pow 10 power.toNat * Nat.pow 2 (-exponent).toNat,
    Nat.pow 10 (-power).toNat * Nat.pow 2 exponent.toNat)

/-- The largest power of ten that is not above `significand · 2 ^ exponent`. -/
def floorLog10 (significand : Nat) (exponent : Int) : Int :=
  let guess := ((significand.log2 : Int) + exponent) * 30103 / 100000
  let atMost (power : Int) : Bool :=
    let (a, b) := gridRatio power exponent
    a ≤ significand * b
  if atMost (guess + 1) then guess + 1 else if atMost guess then guess else guess - 1

/-- The multiple of `10 ^ power` next to `significand · 2 ^ exponent` that rounds to it, the
    nearer one when both neighbours do. -/
def onGrid? (significand : Nat) (exponent power : Int) : Option Nat :=
  let (a, b) := gridRatio power (exponent - 2)
  -- In quarters of the last place the ends of the interval are whole numbers. Above a power of
  -- two the numbers lie twice as far apart as below it.
  let value := 4 * significand * b
  let low := (4 * significand - if significand = Nat.pow 2 52 ∧ -1074 < exponent then 1 else 2) * b
  let high := (4 * significand + 2) * b
  let closed := significand % 2 = 0
  let below := value / a
  let above := below + 1
  let belowFits : Bool := low < below * a ∨ (closed ∧ low = below * a)
  let aboveFits : Bool := above * a < high ∨ (closed ∧ above * a = high)
  match belowFits, aboveFits with
  | false, false => none
  | true, false => some below
  | false, true => some above
  | true, true =>
    let down := value - below * a
    let up := above * a - value
    if down < up then some below
    else if up < down then some above
    else some (if below % 2 = 0 then below else above)

/-- Moves up to `count` trailing zeros of the digits into the power. -/
def Scaled.dropZeros (count : Nat) (decimal : Scaled) : Scaled :=
  match count with
  | 0 => decimal
  | count + 1 =>
    if decimal.digits % 10 = 0 ∧ decimal.digits ≠ 0 then
      Scaled.dropZeros count ⟨decimal.digits / 10, decimal.power + 1⟩
    else decimal

/-- The decimal with the fewest digits that rounds to `significand · 2 ^ exponent`, the nearest
    one of those. -/
def shortest (significand : Nat) (exponent : Int) : Scaled :=
  let top := floorLog10 significand exponent
  let found := (List.range 17).findSome? fun (more : Nat) =>
    let power := top - more
    (onGrid? significand exponent power).map fun digits => (⟨digits, power⟩ : Scaled)
  (found.getD ⟨0, 0⟩).dropZeros 17

/-- Text of a positive decimal whose digits do not end in zero. Between `10 ^ -5` and `10 ^ 16`
    it is positional and keeps a digit after the point; elsewhere it is one digit, the others
    after a point, and a signed exponent. -/
def Scaled.render (decimal : Scaled) : String :=
  let digits := Nat.toDigits 10 decimal.digits
  let count : Int := digits.length
  let leading := decimal.power + count - 1
  if -5 ≤ leading ∧ leading ≤ 15 then
    if 0 ≤ decimal.power then
      String.ofList (digits ++ List.replicate decimal.power.toNat '0' ++ ['.', '0'])
    else if 0 ≤ leading then
      let whole := (leading + 1).toNat
      String.ofList (digits.take whole ++ '.' :: digits.drop whole)
    else
      String.ofList ('0' :: '.' :: (List.replicate (-leading - 1).toNat '0' ++ digits))
  else
    let fraction := if digits.length ≤ 1 then [] else '.' :: digits.drop 1
    let sign := if leading < 0 then '-' else '+'
    String.ofList (digits.take 1 ++ fraction ++ 'e' :: sign :: Nat.toDigits 10 leading.natAbs)

/-- Text of a number: the shortest decimal that reads back as it. -/
def Binary64.render (value : Binary64) : String :=
  let size :=
    if value.significand = 0 then "0.0" else (shortest value.significand value.exponent).render
  if value.negative then "-" ++ size else size

end TypedClient.Decimal
