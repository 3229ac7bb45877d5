/-
  TypedClient.Decimal.Binary64

  Finite binary64 numbers as exact integers, and correct rounding onto them. Every operation
  works on natural numbers, so that a value can be reasoned about as the rational it is.
-/

namespace TypedClient.Decimal

/-- A finite binary64 number, `± significand · 2 ^ exponent`. The significand is below `2 ^ 53`,
    and at least `2 ^ 52` unless the exponent is the least one, `-1074`. -/
structure Binary64 where
  negative : Bool
  significand : Nat
  exponent : Int
  deriving DecidableEq, Repr, Inhabited

/-- The quotient rounded to the nearest integer; a tie goes to the even neighbour. -/
def roundDiv (num den : Nat) : Nat :=
  let floor := num / den
  let rest := num % den
  if 2 * rest < den then floor
  else if den < 2 * rest then floor + 1
  else if floor % 2 = 0 then floor
  else floor + 1

/-- Numerator and denominator of `num / den / 2 ^ power`. -/
def scaleDown (num den : Nat) (power : Int) : Nat × Nat :=
  if 0 ≤ power then (num, den * Nat.pow 2 power.toNat) else (num * Nat.pow 2 (-power).toNat, den)

/-- The largest power of two that is not above `num / den`, both being positive. -/
def floorLog2 (num den : Nat) : Int :=
  let guess : Int := (num.log2 : Int) - den.log2
  let (n, d) := scaleDown num den guess
  if n < d then guess - 1 else guess

namespace Binary64

/-- Zero with a sign. -/
def zero (negative : Bool) : Binary64 := ⟨negative, 0, -1074⟩

/-- The number nearest to `num / den`, ties to the even significand; nothing when the quotient
    is too large. -/
def round (negative : Bool) (num den : Nat) : Option Binary64 :=
  if num = 0 then some (zero negative)
  else
    let exponent := max (floorLog2 num den - 52) (-1074)
    let (n, d) := scaleDown num den exponent
    let significand := roundDiv n d
    let (significand, exponent) :=
      if significand = Nat.pow 2 53 then (Nat.pow 2 52, exponent + 1) else (significand, exponent)
    if 971 < exponent then none else some ⟨negative, significand, exponent⟩

/-- The rounded product. -/
def mul (a b : Binary64) : Option Binary64 :=
  let (num, den) := scaleDown (a.significand * b.significand) 1 (-(a.exponent + b.exponent))
  round (a.negative != b.negative) num den

/-- The rounded quotient by a number other than zero. -/
def div (a b : Binary64) : Option Binary64 :=
  let (num, den) := scaleDown a.significand b.significand (b.exponent - a.exponent)
  round (a.negative != b.negative) num den

/-- The number nearest to a power of ten up to `10 ^ 308`. -/
def powerOfTen (power : Nat) : Binary64 :=
  (round false (Nat.pow 10 power) 1).getD (zero false)

/-- The largest power of ten that is a binary64 number. -/
def largestPower : Nat := 308

/-- A step towards zero from a power below the range. -/
theorem natAbs_add_largestPower_lt {power : Int} (range : ¬ power.natAbs ≤ largestPower)
    (below : ¬ 0 ≤ power) : (power + largestPower).natAbs < power.natAbs := by
  unfold largestPower at *
  omega

/-- `value` times a power of ten, taken in rounded steps of at most `10 ^ 308`; nothing when a
    step overflows. -/
def scaleByTen (value : Binary64) (power : Int) : Option Binary64 :=
  if _range : power.natAbs ≤ largestPower then
    if 0 ≤ power then value.mul (powerOfTen power.toNat)
    else value.div (powerOfTen (-power).toNat)
  else if value.significand = 0 then some value
  else if _below : 0 ≤ power then none
  else (value.div (powerOfTen largestPower)).bind (scaleByTen · (power + largestPower))
termination_by power.natAbs
decreasing_by exact natAbs_add_largestPower_lt _range _below

/-- The number nearest to `digits · 10 ^ power`; nothing when that is too large. -/
def ofDecimal (negative : Bool) (digits : Nat) (power : Int) : Option Binary64 :=
  let magnitude : Int := (Nat.toDigits 10 digits).length + power
  if digits = 0 || magnitude < -330 then some (zero negative)
  else if 310 < magnitude then none
  else if 0 ≤ power then round negative (digits * Nat.pow 10 power.toNat) 1
  else round negative digits (Nat.pow 10 (-power).toNat)

/-- The number with its sign turned. -/
def neg (value : Binary64) : Binary64 := { value with negative := !value.negative }

end Binary64

end TypedClient.Decimal
