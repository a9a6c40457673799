/-
Texts in UTF-8, and the functions of GLib that step through their bytes.

A text is its list of characters and a string the bytes of its text, before the
NUL.  A pointer into a string is the number of bytes before it.
-/

import Mathlib.Data.List.Basic

namespace Purple.Utf8

open List

abbrev Bytes := List UInt8

def encode (text : List Char) : Bytes := text.flatMap String.utf8EncodeChar

/-- `g_utf8_skip` -/
def utf8Skip (lead : UInt8) : Nat :=
  if lead < 0xc0 then 1
  else if lead < 0xe0 then 2
  else if lead < 0xf0 then 3
  else if lead < 0xf8 then 4
  else if lead < 0xfc then 5
  else if lead < 0xfe then 6
  else 1

/-- `g_utf8_next_char` -/
def nextChar : Bytes → Bytes
  | [] => []
  | lead :: rest => rest.drop (utf8Skip lead - 1)

def frontChar : Bytes → Bytes
  | [] => []
  | lead :: rest => lead :: rest.take (utf8Skip lead - 1)

def strlenRounds : Nat → Bytes → Nat
  | 0, _ => 0
  | rounds + 1, str => if str = [] then 0 else strlenRounds rounds (nextChar str) + 1

/-- `g_utf8_strlen` up to the NUL. -/
def gUtf8Strlen (str : Bytes) : Nat := strlenRounds str.length str

def offsetRounds : Nat → Bytes → Nat → Nat
  | 0, _, _ => 0
  | rounds + 1, str, distance =>
    if distance = 0 then 0
    else offsetRounds rounds (nextChar str) (distance - (frontChar str).length) + 1

/-- `g_utf8_pointer_to_offset` -/
def gUtf8PointerToOffset (str : Bytes) (pos : Nat) : Nat := offsetRounds pos str pos

theorem ofNat_toNat {number : Nat} (small : number < 256) : (UInt8.ofNat number).toNat = number := by
  rw [UInt8.toNat_ofNat']
  exact Nat.mod_eq_of_lt small

theorem utf8Skip_ofNat {number : Nat} (small : number < 0xf8) :
    utf8Skip (UInt8.ofNat number) =
      if number < 0xc0 then 1 else if number < 0xe0 then 2 else if number < 0xf0 then 3 else 4 := by
  have value : (UInt8.ofNat number).toNat = number := ofNat_toNat (by omega)
  have below (bound : UInt8) : UInt8.ofNat number < bound ↔ number < bound.toNat := by
    rw [UInt8.lt_iff_toNat_lt, value]
  rw [utf8Skip]
  simp only [below, UInt8.reduceToNat]
  rw [if_pos small]

theorem encodeChar_lead (char : Char) :
    ∃ lead rest, String.utf8EncodeChar char = lead :: rest ∧ utf8Skip lead = rest.length + 1 := by
  rw [String.utf8EncodeChar]
  split
  · refine ⟨_, _, rfl, ?_⟩
    rw [utf8Skip_ofNat (by omega), if_pos (by omega), length_nil]
  · split
    · refine ⟨_, _, rfl, ?_⟩
      rw [utf8Skip_ofNat (by omega), if_neg (by omega), if_pos (by omega)]
      rfl
    · split
      · refine ⟨_, _, rfl, ?_⟩
        rw [utf8Skip_ofNat (by omega), if_neg (by omega), if_neg (by omega), if_pos (by omega)]
        rfl
      · refine ⟨_, _, rfl, ?_⟩
        rw [utf8Skip_ofNat (by omega), if_neg (by omega), if_neg (by omega), if_neg (by omega)]
        rfl

theorem encodeChar_ascii {char : Char} {byte : UInt8} (member : byte ∈ String.utf8EncodeChar char)
    (low : byte.toNat < 128) : char.toNat = byte.toNat := by
  have high {number : Nat} (small : number < 256) (from128 : 128 ≤ number) :
      byte ≠ UInt8.ofNat number := by
    rintro rfl
    rw [ofNat_toNat small] at low
    omega
  rw [String.utf8EncodeChar] at member
  split at member
  · rename_i ascii
    rw [mem_singleton] at member
    rw [member, ofNat_toNat (by omega)]
    rfl
  · split at member
    · simp only [mem_cons, not_mem_nil, or_false] at member
      rcases member with lead | tail
      · exact absurd lead (high (by omega) (by omega))
      · exact absurd tail (high (by omega) (by omega))
    · split at member
      · simp only [mem_cons, not_mem_nil, or_false] at member
        rcases member with lead | second | tail
        · exact absurd lead (high (by omega) (by omega))
        · exact absurd second (high (by omega) (by omega))
        · exact absurd tail (high (by omega) (by omega))
      · simp only [mem_cons, not_mem_nil, or_false] at member
        rcases member with lead | second | third | tail
        · exact absurd lead (high (by omega) (by omega))
        · exact absurd second (high (by omega) (by omega))
        · exact absurd third (high (by omega) (by omega))
        · exact absurd tail (high (by omega) (by omega))

@[simp] theorem encode_nil : encode [] = [] := rfl

@[simp] theorem encode_cons (char : Char) (text : List Char) :
    encode (char :: text) = String.utf8EncodeChar char ++ encode text := flatMap_cons

@[simp] theorem encode_append (front rest : List Char) :
    encode (front ++ rest) = encode front ++ encode rest := flatMap_append

theorem nextChar_encodeChar (char : Char) (behind : Bytes) :
    nextChar (String.utf8EncodeChar char ++ behind) = behind := by
  obtain ⟨lead, rest, bytes, skip⟩ := encodeChar_lead char
  rw [bytes, cons_append, nextChar, skip, Nat.add_sub_cancel, drop_left]

theorem frontChar_encodeChar (char : Char) (behind : Bytes) :
    frontChar (String.utf8EncodeChar char ++ behind) = String.utf8EncodeChar char := by
  obtain ⟨lead, rest, bytes, skip⟩ := encodeChar_lead char
  rw [bytes, cons_append, frontChar, skip, Nat.add_sub_cancel, take_left]

theorem encodeChar_length_pos (char : Char) : 0 < (String.utf8EncodeChar char).length := by
  obtain ⟨lead, rest, bytes, -⟩ := encodeChar_lead char
  rw [bytes]
  exact Nat.succ_pos _

theorem encode_eq_nil {text : List Char} : encode text = [] ↔ text = [] := by
  constructor
  · intro nothing
    cases text with
    | nil => rfl
    | cons char text =>
      have positive := encodeChar_length_pos char
      rw [encode_cons, append_eq_nil_iff] at nothing
      rw [nothing.1] at positive
      exact absurd positive (Nat.lt_irrefl _)
  · rintro rfl
    rfl

theorem strlenRounds_encode (text : List Char) {rounds : Nat} (enough : (encode text).length ≤ rounds) :
    strlenRounds rounds (encode text) = text.length := by
  induction text generalizing rounds with
  | nil => cases rounds <;> rfl
  | cons char text ih =>
    have positive := encodeChar_length_pos char
    rw [encode_cons, length_append] at enough
    obtain _ | rounds := rounds
    · omega
    have filled : encode (char :: text) ≠ [] := fun empty =>
      nomatch (encode_eq_nil.mp empty : char :: text = [])
    rw [strlenRounds, if_neg filled, encode_cons, nextChar_encodeChar, ih (by omega),
      length_cons]

theorem gUtf8Strlen_encode (text : List Char) : gUtf8Strlen (encode text) = text.length :=
  strlenRounds_encode text (Nat.le_refl _)

theorem offsetRounds_encode (front rest : List Char) {rounds : Nat}
    (enough : (encode front).length ≤ rounds) :
    offsetRounds rounds (encode (front ++ rest)) (encode front).length = front.length := by
  induction front generalizing rounds with
  | nil => cases rounds <;> rfl
  | cons char front ih =>
    have positive := encodeChar_length_pos char
    rw [encode_cons, length_append] at enough
    obtain _ | rounds := rounds
    · omega
    have far : (encode (char :: front)).length ≠ 0 := by
      rw [encode_cons, length_append]
      omega
    have left : (encode (char :: front)).length - (String.utf8EncodeChar char).length =
        (encode front).length := by
      rw [encode_cons, length_append]
      omega
    rw [offsetRounds, if_neg far, cons_append, encode_cons, nextChar_encodeChar,
      frontChar_encodeChar, left, ih (by omega), length_cons]

theorem gUtf8PointerToOffset_encode (front rest : List Char) :
    gUtf8PointerToOffset (encode (front ++ rest)) (encode front).length = front.length :=
  offsetRounds_encode front rest (Nat.le_refl _)

end Purple.Utf8
