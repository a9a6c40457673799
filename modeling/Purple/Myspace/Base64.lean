/-
Base64 itself as the coding of binary values.
-/

import Purple.Jabber.ScramExchange
import Purple.Myspace.Message

namespace Purple.Myspace

open List Jabber.Scram

structure Base64.Codes (base64 : Base64) : Prop where
  decode_encode : ∀ bytes, base64.decode (base64.encode bytes).val = some bytes
  encode_plain : ∀ bytes, 92 ∉ (base64.encode bytes).val

def base64Standard : Base64 :=
  { encode := fun bytes => ⟨base64Encode bytes, base64Encode_clean bytes⟩
    decode := fun bytes => some (base64Decode bytes) }

theorem base64Value_char {value : Nat} (small : value < 64) :
    base64Value (base64Char value) = value ∧ base64Char value ≠ 61 ∧ base64Char value ≠ 92 := by
  have all : ∀ value : Fin 64, base64Value (base64Char value) = value ∧
      base64Char value ≠ 61 ∧ base64Char value ≠ 92 := by decide
  exact all ⟨value, small⟩

theorem ofNat_byte {byte : UInt8} {value : Nat} (same : value % 256 = byte.toNat) :
    UInt8.ofNat value = byte := by
  apply UInt8.toNat.inj
  rw [UInt8.toNat_ofNat', same]

theorem base64Decode_encode (bytes : Bytes) : base64Decode (base64Encode bytes) = bytes := by
  induction bytes using base64Encode.induct with
  | case1 first second third rest ih =>
    have one := first.toNat_lt
    have two := second.toNat_lt
    have three := third.toNat_lt
    rw [base64Encode]
    generalize number : (first.toNat * 256 + second.toNat) * 256 + third.toNat = value
    have char1 := @base64Value_char (value / 262144) (by omega)
    have char2 := @base64Value_char (value / 4096 % 64) (by omega)
    have char3 := @base64Value_char (value / 64 % 64) (by omega)
    have char4 := @base64Value_char (value % 64) (by omega)
    rw [base64Decode]
    rw [if_neg char3.2.1, if_neg char4.2.1, char1.1, char2.1, char3.1, char4.1, ih]
    have whole : ((value / 262144 * 64 + value / 4096 % 64) * 64 + value / 64 % 64) * 64 +
        value % 64 = value := by omega
    rw [whole]
    change [UInt8.ofNat (value / 65536), UInt8.ofNat (value / 256), UInt8.ofNat value] ++ rest = _
    rw [@ofNat_byte first (value / 65536) (by omega), @ofNat_byte second (value / 256) (by omega),
      @ofNat_byte third value (by omega)]
    rfl
  | case2 first second =>
    have one := first.toNat_lt
    have two := second.toNat_lt
    rw [base64Encode]
    generalize number : (first.toNat * 256 + second.toNat) * 4 = value
    have char1 := @base64Value_char (value / 4096) (by omega)
    have char2 := @base64Value_char (value / 64 % 64) (by omega)
    have char3 := @base64Value_char (value % 64) (by omega)
    rw [base64Decode]
    rw [if_neg char3.2.1, if_pos rfl, char1.1, char2.1, char3.1]
    have whole : (value / 4096 * 64 + value / 64 % 64) * 64 + value % 64 = value := by omega
    rw [whole]
    change [UInt8.ofNat (value / 1024), UInt8.ofNat (value / 4)] = _
    rw [@ofNat_byte first (value / 1024) (by omega), @ofNat_byte second (value / 4) (by omega)]
  | case3 first =>
    have one := first.toNat_lt
    rw [base64Encode]
    generalize number : first.toNat * 16 = value
    have char1 := @base64Value_char (value / 64) (by omega)
    have char2 := @base64Value_char (value % 64) (by omega)
    rw [base64Decode]
    rw [if_pos rfl, char1.1, char2.1]
    have whole : value / 64 * 64 + value % 64 = value := by omega
    rw [whole]
    change [UInt8.ofNat (value / 16)] = _
    rw [@ofNat_byte first (value / 16) (by omega)]
  | case4 => rfl

theorem base64Encode_plain (bytes : Bytes) : 92 ∉ base64Encode bytes := by
  have plain {value : Nat} (small : value < 64) : 92 ≠ base64Char value :=
    (base64Value_char small).2.2.symm
  induction bytes using base64Encode.induct with
  | case1 first second third rest ih =>
    have one := first.toNat_lt
    have two := second.toNat_lt
    have three := third.toNat_lt
    rw [base64Encode]
    simp only [mem_cons, not_or]
    exact ⟨plain (by omega), plain (by omega), plain (by omega), plain (by omega), ih⟩
  | case2 first second =>
    have one := first.toNat_lt
    have two := second.toNat_lt
    rw [base64Encode]
    simp only [mem_cons, not_or]
    exact ⟨plain (by omega), plain (by omega), plain (by omega), by decide, not_mem_nil⟩
  | case3 first =>
    have one := first.toNat_lt
    rw [base64Encode]
    simp only [mem_cons, not_or]
    exact ⟨plain (by omega), plain (by omega), by decide, by decide, not_mem_nil⟩
  | case4 => exact not_mem_nil

theorem base64Standard_codes : base64Standard.Codes :=
  ⟨fun bytes => congrArg some (base64Decode_encode bytes), base64Encode_plain⟩

end Purple.Myspace
