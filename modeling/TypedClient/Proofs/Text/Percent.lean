/-
  TypedClient.Proofs.Text.Percent

  Percent encoding, read back.  A text spells another one when each byte of the UTF-8 form of the
  other stands in its own for itself or as a percent sign and two hexadecimal digits of either
  case, and the byte of a percent sign never stands for itself.  Which of the other bytes are
  written with digits is up to the writer: decoding gives the same text.
-/
import Mathlib.Tactic.ByContra
import TypedClient.Text.Digits
import TypedClient.Text.Percent

namespace TypedClient.Text

/-! ## Bytes of a text -/

theorem toList_loop (bytes : ByteArray) (index : Nat) (read : List UInt8) :
    ByteArray.toList.loop bytes index read = read.reverse ++ bytes.data.toList.drop index := by
  fun_induction ByteArray.toList.loop bytes index read with
  | case1 index read hlt ih =>
    have hlength : index < bytes.data.toList.length := hlt
    have hget : bytes.get! index = bytes.data.toList[index] := by
      show bytes.data[index]! = _
      rw [getElem!_pos bytes.data index hlt, Array.getElem_toList]
    rw [ih, hget, List.drop_eq_getElem_cons hlength, List.reverse_cons, List.append_assoc]
    rfl
  | case2 index read hlt =>
    have hlength : bytes.data.toList.length ≤ index := Nat.le_of_not_lt hlt
    rw [List.drop_eq_nil_of_le hlength, List.append_nil]

theorem toList_eq_data (bytes : ByteArray) : bytes.toList = bytes.data.toList :=
  toList_loop bytes 0 []

/-- The bytes of a text are those of its characters. -/
theorem toList_toUTF8 (text : String) :
    text.toUTF8.toList = text.toList.flatMap String.utf8EncodeChar := by
  have hencode : text.toUTF8 = text.toList.utf8Encode := by
    rw [← String.toByteArray_ofList, String.ofList_toList]
    rfl
  rw [toList_eq_data, hencode]
  exact List.toList_data_toByteArray

/-- A text is read back from its bytes. -/
theorem fromUTF8?_toUTF8 (text : String) : String.fromUTF8? text.toUTF8 = some text :=
  dif_pos text.isValidUTF8

/-- A character from 128 on has no byte below 128. -/
theorem le_of_mem_utf8EncodeChar {c : Char} (hlarge : 127 < c.toNat) {byte : UInt8}
    (h : byte ∈ String.utf8EncodeChar c) : 128 ≤ byte.toNat := by
  have hbyte : ∀ n, 128 ≤ n → n < 256 → 128 ≤ (UInt8.ofNat n).toNat := fun n hle hlt => by
    rwa [UInt8.toNat_ofNat', Nat.mod_eq_of_lt hlt]
  have hmany : ¬ c.val.toNat ≤ 127 := Nat.not_le.mpr hlarge
  unfold String.utf8EncodeChar at h
  rw [if_neg hmany] at h
  -- Two, three and four bytes.
  split at h
  · simp only [List.mem_cons, List.not_mem_nil, or_false] at h
    rcases h with rfl | rfl <;> exact hbyte _ (by omega) (by omega)
  split at h
  · simp only [List.mem_cons, List.not_mem_nil, or_false] at h
    rcases h with rfl | rfl | rfl <;> exact hbyte _ (by omega) (by omega)
  · simp only [List.mem_cons, List.not_mem_nil, or_false] at h
    rcases h with rfl | rfl | rfl | rfl <;> exact hbyte _ (by omega) (by omega)

/-- A character below 128 is a single byte. -/
theorem utf8EncodeChar_of_lt {c : Char} (h : c.toNat < 128) :
    String.utf8EncodeChar c = [UInt8.ofNat c.toNat] := by
  have hone : c.val.toNat ≤ 127 := Nat.le_of_lt_succ h
  unfold String.utf8EncodeChar
  rw [if_pos hone]
  rfl

/-- A byte below 128 is the character of that code point. -/
theorem toNat_mem_utf8EncodeChar {c : Char} {byte : UInt8} (h : byte ∈ String.utf8EncodeChar c)
    (hsmall : byte.toNat < 128) : byte.toNat = c.toNat := by
  have hc : c.toNat < 128 := by
    by_contra hlarge
    have hle : 128 ≤ byte.toNat := le_of_mem_utf8EncodeChar (by omega) h
    omega
  rw [utf8EncodeChar_of_lt hc, List.mem_singleton] at h
  rw [h, UInt8.toNat_ofNat', Nat.mod_eq_of_lt (by omega)]

/-! ## Spelling -/

/-- The byte is a hexadecimal digit of that value, small or capital. -/
def IsDigitOf (value : Nat) (byte : UInt8) : Prop :=
  ∃ digit, digitValue? digit = some value ∧ byte.toNat = digit.toNat

/-- The written bytes spell the others: each stands for itself, unless it is a percent sign, or is
    written as a percent sign and two digits. -/
inductive SpellsBytes : List UInt8 → List UInt8 → Prop
  | nil : SpellsBytes [] []
  | plain {byte : UInt8} {bytes written : List UInt8} (h : byte.toNat ≠ '%'.toNat)
      (rest : SpellsBytes bytes written) : SpellsBytes (byte :: bytes) (byte :: written)
  | digits {byte percent high low : UInt8} {bytes written : List UInt8}
      (hpercent : percent.toNat = '%'.toNat) (hhigh : IsDigitOf (byte.toNat / 16) high)
      (hlow : IsDigitOf (byte.toNat % 16) low) (rest : SpellsBytes bytes written) :
      SpellsBytes (byte :: bytes) (percent :: high :: low :: written)

/-- The written text spells the other one, byte by byte. -/
def Spells (text written : String) : Prop :=
  SpellsBytes text.toUTF8.toList written.toUTF8.toList

/-! ## Reading -/

/-- What a digit is by its code point. -/
theorem digitValue?_cases {c : Char} {value : Nat} (h : digitValue? c = some value) :
    (48 ≤ c.toNat ∧ c.toNat ≤ 57 ∧ value = c.toNat - 48) ∨
    (65 ≤ c.toNat ∧ c.toNat ≤ 70 ∧ value = c.toNat - 55) ∨
    (97 ≤ c.toNat ∧ c.toNat ≤ 102 ∧ value = c.toNat - 87) := by
  have hle : ∀ {a b : Char}, a ≤ b ↔ a.toNat ≤ b.toNat := UInt32.le_iff_toNat_le
  unfold digitValue? at h
  simp only [hle] at h
  split at h
  · next hrange => exact .inl ⟨hrange.1, hrange.2, (Option.some.inj h).symm⟩
  split at h
  · next hrange => exact .inr (.inl ⟨hrange.1, hrange.2, (Option.some.inj h).symm⟩)
  split at h
  · next hrange => exact .inr (.inr ⟨hrange.1, hrange.2, (Option.some.inj h).symm⟩)
  · cases h

/-- The reader takes digits of either case. -/
theorem IsDigitOf.hexDigit?_eq {value : Nat} {byte : UInt8} (h : IsDigitOf value byte) :
    hexDigit? byte = some (UInt8.ofNat value) := by
  obtain ⟨digit, hdigit, hbyte⟩ := h
  have hsub : ∀ start : UInt8, start.toNat ≤ byte.toNat →
      byte - start = UInt8.ofNat (byte.toNat - start.toNat) := fun start hstart => by
    apply UInt8.toNat_inj.mp
    have hlt : byte.toNat - start.toNat < 256 := by
      have hbyte := byte.toNat_lt
      omega
    rw [UInt8.toNat_sub_of_le _ _ hstart, UInt8.toNat_ofNat', Nat.mod_eq_of_lt hlt]
  unfold hexDigit?
  simp only [Bool.and_eq_true, decide_eq_true_eq, UInt8.le_iff_toNat_le]
  show (if 48 ≤ byte.toNat ∧ byte.toNat ≤ 57 then some (byte - 48)
    else if 65 ≤ byte.toNat ∧ byte.toNat ≤ 70 then some (byte - 55)
    else if 97 ≤ byte.toNat ∧ byte.toNat ≤ 102 then some (byte - 87) else none) = _
  have hcases := digitValue?_cases hdigit
  rw [← hbyte] at hcases
  rcases hcases with ⟨hfirst, hlast, rfl⟩ | ⟨hfirst, hlast, rfl⟩ | ⟨hfirst, hlast, rfl⟩
  · rw [if_pos ⟨hfirst, hlast⟩, hsub 48 hfirst]
    rfl
  · have hdecimal : ¬ (48 ≤ byte.toNat ∧ byte.toNat ≤ 57) := by omega
    rw [if_neg hdecimal, if_pos ⟨hfirst, hlast⟩, hsub 55 (Nat.le_trans (by decide) hfirst)]
    rfl
  · have hdecimal : ¬ (48 ≤ byte.toNat ∧ byte.toNat ≤ 57) := by omega
    have hcapital : ¬ (65 ≤ byte.toNat ∧ byte.toNat ≤ 70) := by omega
    rw [if_neg hdecimal, if_neg hcapital, if_pos ⟨hfirst, hlast⟩,
      hsub 87 (Nat.le_trans (by decide) hfirst)]
    rfl

/-- A byte is read from the digits of its halves. -/
theorem ofNat_div_mul_add_mod (byte : UInt8) :
    UInt8.ofNat (byte.toNat / 16) * 16 + UInt8.ofNat (byte.toNat % 16) = byte := by
  apply UInt8.toNat_inj.mp
  have hlt := byte.toNat_lt
  rw [UInt8.toNat_add, UInt8.toNat_mul, UInt8.toNat_ofNat', UInt8.toNat_ofNat']
  show (byte.toNat / 16 % 256 * 16 % 256 + byte.toNat % 16 % 256) % 256 = byte.toNat
  omega

/-- A byte that is no percent sign stands for itself. -/
theorem percentDecodeBytes_cons {byte : UInt8} (h : byte.toNat ≠ '%'.toNat)
    (rest : List UInt8) : percentDecodeBytes (byte :: rest) = byte :: percentDecodeBytes rest := by
  rw [percentDecodeBytes]
  rintro high low tail rfl
  exact absurd rfl h

/-- Decoding gives the spelled bytes. -/
theorem SpellsBytes.percentDecodeBytes_eq {bytes written : List UInt8}
    (h : SpellsBytes bytes written) : percentDecodeBytes written = bytes := by
  induction h with
  | nil => rfl
  | plain hplain rest ih => rw [percentDecodeBytes_cons hplain, ih]
  | @digits byte percent high low bytes written hpercent hhigh hlow rest ih =>
    have hsign : percent = 37 := UInt8.toNat_inj.mp hpercent
    rw [hsign, percentDecodeBytes, hhigh.hexDigit?_eq, hlow.hexDigit?_eq]
    dsimp only
    rw [ofNat_div_mul_add_mod, ih]

/-- Decoding gives the spelled text. -/
theorem Spells.percentDecode_eq {text written : String} (h : Spells text written) :
    percentDecode written = text := by
  have hbytes : (⟨(percentDecodeBytes written.toUTF8.toList).toArray⟩ : ByteArray) =
      text.toUTF8 := by
    rw [SpellsBytes.percentDecodeBytes_eq h, toList_eq_data]
  unfold percentDecode
  dsimp only
  rw [hbytes, fromUTF8?_toUTF8, Option.getD_some]

/-! ## What is written -/

/-- A byte that is written is one of the spelled ones, a percent sign or a digit. -/
theorem SpellsBytes.of_mem {bytes written : List UInt8} (h : SpellsBytes bytes written)
    {byte : UInt8} (hbyte : byte ∈ written) :
    byte ∈ bytes ∨ byte.toNat = '%'.toNat ∨ ∃ value, IsDigitOf value byte := by
  induction h with
  | nil => cases hbyte
  | plain hplain rest ih =>
    rcases List.mem_cons.mp hbyte with rfl | hbyte
    · exact .inl (List.mem_cons_self ..)
    · exact (ih hbyte).imp_left (List.mem_cons_of_mem _)
  | digits hpercent hhigh hlow rest ih =>
    simp only [List.mem_cons] at hbyte
    rcases hbyte with rfl | rfl | rfl | hbyte
    · exact .inr (.inl hpercent)
    · exact .inr (.inr ⟨_, hhigh⟩)
    · exact .inr (.inr ⟨_, hlow⟩)
    · exact (ih hbyte).imp_left (List.mem_cons_of_mem _)

/-- Writing brings in no slash. -/
theorem Spells.slash_not_mem {text written : String} (h : Spells text written)
    (htext : '/' ∉ text.toList) : '/' ∉ written.toList := by
  intro hmem
  have hbyte : (47 : UInt8) ∈ written.toUTF8.toList := by
    rw [toList_toUTF8]
    exact List.mem_flatMap.mpr ⟨'/', hmem, by decide⟩
  rcases h.of_mem hbyte with hbyte | hpercent | ⟨value, digit, hdigit, hcode⟩
  · rw [toList_toUTF8] at hbyte
    obtain ⟨c, hc, hbyte⟩ := List.mem_flatMap.mp hbyte
    have hcode : (47 : UInt8).toNat = c.toNat := toNat_mem_utf8EncodeChar hbyte (by decide)
    have hslash : '/' = c := Char.toNat_inj.mp hcode
    exact htext (hslash ▸ hc)
  · exact absurd hpercent (by decide)
  · have hcases := digitValue?_cases hdigit
    rw [← hcode] at hcases
    revert hcases
    show ¬ ((48 ≤ 47 ∧ 47 ≤ 57 ∧ _) ∨ (65 ≤ 47 ∧ 47 ≤ 70 ∧ _) ∨ (97 ≤ 47 ∧ 47 ≤ 102 ∧ _))
    omega

/-! ## Writing -/

theorem SpellsBytes.append {bytes written bytes' written' : List UInt8}
    (h : SpellsBytes bytes written) (h' : SpellsBytes bytes' written') :
    SpellsBytes (bytes ++ bytes') (written ++ written') := by
  induction h with
  | nil => exact h'
  | plain hplain rest ih => exact .plain hplain ih
  | digits hpercent hhigh hlow rest ih => exact .digits hpercent hhigh hlow ih

/-- Bytes other than that of a percent sign spell themselves. -/
theorem spellsBytes_self {bytes : List UInt8} (h : ∀ byte ∈ bytes, byte.toNat ≠ '%'.toNat) :
    SpellsBytes bytes bytes := by
  induction bytes with
  | nil => exact .nil
  | cons byte bytes ih =>
    obtain ⟨hbyte, hbytes⟩ := List.forall_mem_cons.mp h
    exact .plain hbyte (ih hbytes)

theorem isDigitOf_hexCapital {value : Nat} (h : value < 16) :
    String.utf8EncodeChar (hexCapital value) = [UInt8.ofNat (hexCapital value).toNat] ∧
      IsDigitOf value (UInt8.ofNat (hexCapital value).toNat) := by
  have hdigit : ∀ value < 16, digitValue? (hexCapital value) = some value ∧
      (hexCapital value).toNat < 128 := by decide
  obtain ⟨hvalue, hsmall⟩ := hdigit value h
  refine ⟨utf8EncodeChar_of_lt hsmall, hexCapital value, hvalue, ?_⟩
  rw [UInt8.toNat_ofNat', Nat.mod_eq_of_lt (by omega)]

/-- Capital digits spell the bytes. -/
theorem spellsBytes_percentByte (bytes : List UInt8) :
    SpellsBytes bytes ((bytes.flatMap percentByte).flatMap String.utf8EncodeChar) := by
  induction bytes with
  | nil => exact .nil
  | cons byte bytes ih =>
    have hlt := byte.toNat_lt
    obtain ⟨hhigh, hhighDigit⟩ := @isDigitOf_hexCapital (byte.toNat / 16) (by omega)
    obtain ⟨hlow, hlowDigit⟩ := @isDigitOf_hexCapital (byte.toNat % 16) (by omega)
    rw [List.flatMap_cons, percentByte, List.cons_append, List.cons_append, List.cons_append,
      List.nil_append, List.flatMap_cons, List.flatMap_cons, List.flatMap_cons, hhigh, hlow]
    exact .digits rfl hhighDigit hlowDigit ih

/-- Whichever characters are picked, what is written spells the text. -/
theorem spells_percentEncode {escape : Char → Bool} (hescape : escape '%' = true)
    (text : String) : Spells text (percentEncode escape text) := by
  unfold Spells percentEncode
  rw [toList_toUTF8, toList_toUTF8, String.toList_ofList]
  induction text.toList with
  | nil => exact .nil
  | cons c chars ih =>
    rw [List.flatMap_cons, List.flatMap_cons, List.flatMap_append]
    refine SpellsBytes.append ?_ ih
    split
    · rw [toList_toUTF8, String.toList_singleton, List.flatMap_singleton]
      exact spellsBytes_percentByte _
    · next hkept =>
      rw [List.flatMap_singleton]
      refine spellsBytes_self fun byte hbyte hpercent => hkept ?_
      have hcode : byte.toNat = c.toNat :=
        toNat_mem_utf8EncodeChar hbyte (by rw [hpercent]; decide)
      have hc : c = '%' := Char.toNat_inj.mp (hcode.symm.trans hpercent)
      rw [hc, hescape]

end TypedClient.Text
