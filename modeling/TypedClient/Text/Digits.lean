/-
  TypedClient.Text.Digits

  Numbers spelled in bases up to sixteen, and characters spelled by their code point.
-/

namespace TypedClient.Text

/-- Value of a digit up to `f`, in either case. -/
def digitValue? (c : Char) : Option Nat :=
  if '0' ≤ c ∧ c ≤ '9' then some (c.toNat - 48)
  else if 'A' ≤ c ∧ c ≤ 'F' then some (c.toNat - 55)
  else if 'a' ≤ c ∧ c ≤ 'f' then some (c.toNat - 87)
  else none

/-- Value of a digit in a base up to sixteen. -/
def digitIn? (base : Nat) (c : Char) : Option Nat := (digitValue? c).filter (· < base)

/-- Value of digits in a base up to sixteen; no digits are zero. -/
def numberIn? (base : Nat) (digits : List Char) : Option Nat :=
  digits.foldlM (fun value c => (digitIn? base c).map (value * base + ·)) 0

/-- The character whose code point hexadecimal digits spell; a surrogate is none. -/
def codeChar? (digits : List Char) : Option Char :=
  (numberIn? 16 digits).bind fun code =>
    if code.isValidChar then some (Char.ofNat code) else none

end TypedClient.Text
