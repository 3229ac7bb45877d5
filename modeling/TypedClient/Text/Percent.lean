/-
  TypedClient.Text.Percent

  Percent encoding of the bytes of a text.
-/

namespace TypedClient.Text

/-- Value of a hexadecimal digit given as a byte. -/
def hexDigit? (b : UInt8) : Option UInt8 :=
  if 48 ≤ b && b ≤ 57 then some (b - 48)
  else if 65 ≤ b && b ≤ 70 then some (b - 55)
  else if 97 ≤ b && b ≤ 102 then some (b - 87)
  else none

/-- Replaces every `%` that two hexadecimal digits follow by the byte they name; any other byte
    stands for itself. -/
def percentDecodeBytes : List UInt8 → List UInt8
  | [] => []
  | 37 :: hi :: lo :: rest =>
    match hexDigit? hi, hexDigit? lo with
    | some h, some l => (h * 16 + l) :: percentDecodeBytes rest
    | _, _ => 37 :: percentDecodeBytes (hi :: lo :: rest)
  | b :: rest => b :: percentDecodeBytes rest

/-- The decoded text, or the text as written when the decoded bytes are not UTF-8. -/
def percentDecode (text : String) : String :=
  let bytes : ByteArray := ⟨(percentDecodeBytes text.toUTF8.toList).toArray⟩
  (String.fromUTF8? bytes).getD text

/-- A capital hexadecimal digit. -/
def hexCapital (n : Nat) : Char :=
  if n < 10 then Char.ofNat (48 + n) else Char.ofNat (55 + n)

/-- One byte as `%` and two capital hexadecimal digits. -/
def percentByte (b : UInt8) : List Char :=
  ['%', hexCapital (b.toNat / 16), hexCapital (b.toNat % 16)]

/-- Writes every character that `escape` picks as its percent-encoded UTF-8 bytes. -/
def percentEncode (escape : Char → Bool) (text : String) : String :=
  String.ofList (text.toList.flatMap fun c =>
    if escape c then (String.singleton c).toUTF8.toList.flatMap percentByte else [c])

end TypedClient.Text
