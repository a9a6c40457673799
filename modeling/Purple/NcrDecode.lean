/-
`purple_utf8_ncr_encode` and `purple_utf8_ncr_decode` of util.c: characters outside of
ASCII as references by their number.

The valid strings that are encoded are given by their characters.  `strtoul` returns
what it read, cut to 32 bits as the decoder does, and the rest of the string.
-/

import Mathlib.Data.List.TakeWhile
import Purple.Decimal
import Purple.Utf8

namespace Purple.NcrDecode

open List Option CString Decimal Utf8

def purpleUtf8NcrEncode (str : List Char) : Bytes :=
  str.flatMap fun char =>
    if 0x80 ≤ char.toNat then ascii "&#" ++ decimal char.toNat ++ [59] else [UInt8.ofNat char.toNat]

def tailByte (bits : Nat) : UInt8 := UInt8.ofNat (bits % 64 + 0x80)

/-- The bytes that `g_string_append_unichar` appends. -/
def unichar (wc : Nat) : Bytes :=
  if wc < 0x80 then [UInt8.ofNat wc]
  else if wc < 0x800 then [UInt8.ofNat (wc / 64 + 0xc0), tailByte wc]
  else if wc < 0x10000 then [UInt8.ofNat (wc / 4096 + 0xe0), tailByte (wc / 64), tailByte wc]
  else if wc < 0x200000 then
    [UInt8.ofNat (wc / 262144 + 0xf0), tailByte (wc / 4096), tailByte (wc / 64), tailByte wc]
  else if wc < 0x4000000 then
    [UInt8.ofNat (wc / 16777216 + 0xf8), tailByte (wc / 262144), tailByte (wc / 4096),
      tailByte (wc / 64), tailByte wc]
  else
    [UInt8.ofNat (wc / 1073741824 + 0xfc), tailByte (wc / 16777216), tailByte (wc / 262144),
      tailByte (wc / 4096), tailByte (wc / 64), tailByte wc]

def isDigit (base : Nat) (byte : UInt8) : Bool := (digitValue base byte).isSome

def strtoul (base : Nat) (text : Bytes) : Nat × Bytes :=
  let signed := stripSign (text.dropWhile isSpace)
  let behind := stripHexPrefix signed.2
  let marked := (base = 0 ∨ base = 16) ∧ behind ≠ signed.2 ∧ behind.head?.any (isDigit 16)
  let body := if marked then behind else signed.2
  let base := if marked then 16 else if base = 0 then (if body.head? = some 48 then 8 else 10) else base
  (scanDigits base none body).elim (0, text) fun value =>
    let value := if ulongMax < value then ulongMax else value
    ((if signed.1 then 2 ^ 64 - value else value) % 2 ^ 32, body.dropWhile (isDigit base))

theorem strtoul_length (base : Nat) (text : Bytes) : (strtoul base text).2.length ≤ text.length := by
  have spaces := length_dropWhile_le isSpace text
  have signs : (stripSign (text.dropWhile isSpace)).2.length ≤ (text.dropWhile isSpace).length := by
    rw [stripSign.eq_def]
    split
    · rename_i same
      rw [same]
      exact Nat.le_succ _
    · rename_i same
      rw [same]
      exact Nat.le_succ _
    · exact Nat.le_refl _
  have marks (text : Bytes) : (stripHexPrefix text).length ≤ text.length := by
    rw [stripHexPrefix.eq_def]
    split
    · exact Nat.le_add_right _ 2
    · exact Nat.le_add_right _ 2
    · exact Nat.le_refl _
  have marked := marks (stripSign (text.dropWhile isSpace)).2
  rw [strtoul]
  dsimp only
  generalize scanDigits _ _ _ = read
  cases read with
  | none => exact Nat.le_refl _
  | some value =>
    refine Nat.le_trans (length_dropWhile_le _ _) ?_
    split
    · omega
    · omega

def referenceNumber (b : Bytes) : Nat × Bytes :=
  if b.head? = some 120 ∨ b.head? = some 88 then strtoul 16 b.tail else strtoul 0 b

/-- The reference behind `&#`, and the rest of the string. -/
def reference (b : Bytes) : Bytes × Bytes :=
  let read := referenceNumber b
  if read.2.head? = some 59 then (unichar read.1, read.2.tail) else ([], read.2)

theorem reference_length (b : Bytes) : (reference b).2.length ≤ b.length := by
  have number : (referenceNumber b).2.length ≤ b.length := by
    rw [referenceNumber]
    split
    · apply Nat.le_trans (strtoul_length 16 _)
      rw [length_tail]
      exact Nat.sub_le _ _
    · exact strtoul_length 0 b
  rw [reference]
  split
  · rw [length_tail]
    exact Nat.le_trans (Nat.sub_le _ _) number
  · exact number

def purpleUtf8NcrDecode (buf : Bytes) : Bytes :=
  if found : (strstr [38, 35] buf).isSome then
    let offset := (strstr [38, 35] buf).get found
    let read := reference (buf.drop (offset + 2))
    buf.take offset ++ read.1 ++ purpleUtf8NcrDecode read.2
  else buf
termination_by buf.length
decreasing_by
  have bound := strstr_bound (some_get found).symm
  have shorter := reference_length (buf.drop ((strstr [38, 35] buf).get found + 2))
  rw [List.length_drop] at shorter
  change (strstr [38, 35] buf).get found + 2 ≤ buf.length at bound
  omega

theorem decode_reference (more : Bytes) :
    purpleUtf8NcrDecode (38 :: 35 :: more) =
      (reference more).1 ++ purpleUtf8NcrDecode (reference more).2 := by
  have found : strstr [38, 35] (38 :: 35 :: more) = some 0 := rfl
  rw [purpleUtf8NcrDecode, dif_pos (by rw [found]; rfl)]
  simp only [found, get_some, take_zero, nil_append]
  rfl

theorem decode_skip {byte : UInt8} {rest : Bytes} (other : ¬(byte = 38 ∧ rest.head? = some 35)) :
    purpleUtf8NcrDecode (byte :: rest) = byte :: purpleUtf8NcrDecode rest := by
  have later : strstr [38, 35] (byte :: rest) = (strstr [38, 35] rest).map (· + 1) := by
    rw [strstr, if_neg]
    intro marks
    apply other
    cases rest with
    | nil => simp at marks
    | cons next rest =>
      simp only [List.isPrefixOf, Bool.and_eq_true, beq_iff_eq, and_true] at marks
      exact ⟨marks.1.symm, congrArg some marks.2.symm⟩
  rw [purpleUtf8NcrDecode, purpleUtf8NcrDecode]
  cases found : strstr [38, 35] rest with
  | none =>
    rw [found] at later
    simp only [later, map_none, isSome_none, Bool.false_eq_true, dif_neg,
      not_false_eq_true]
  | some offset =>
    rw [found] at later
    simp only [later, map_some, isSome_some, dif_pos, get_some,
      take_succ_cons, cons_append, Nat.add_right_comm offset 1 2, drop_succ_cons]

theorem decode_nil : purpleUtf8NcrDecode [] = [] := by
  rw [purpleUtf8NcrDecode, dif_neg]
  exact Bool.false_ne_true

variable {base digitBase value : Nat} {stop : UInt8} {front : Bytes}

theorem isDigit_hex (small : base ≤ 16) {byte : UInt8} (digit : isDigit base byte = true) :
    isDigit 16 byte = true := by
  obtain ⟨value, read⟩ := isSome_iff_exists.mp digit
  obtain ⟨spelled, below⟩ := filter_eq_some_iff.mp read
  refine isSome_iff_exists.mpr ⟨value, filter_eq_some_iff.mpr ⟨spelled, ?_⟩⟩
  exact decide_eq_true (Nat.lt_of_lt_of_le (of_decide_eq_true below) small)

theorem strtoul_digits (filled : front ≠ []) (digits : ∀ byte ∈ front, isDigit digitBase byte = true)
    (small : digitBase ≤ 16) (stops : isDigit digitBase stop = false)
    (unmarked : stop ≠ 120 ∧ stop ≠ 88)
    (chosen : (if base = 0 then if front.head? = some 48 then 8 else 10 else base) = digitBase)
    (read : scanDigits digitBase none front = some value) (rest : Bytes) :
    strtoul base (front ++ stop :: rest) =
      ((if ulongMax < value then ulongMax else value) % 2 ^ 32, stop :: rest) := by
  obtain ⟨unsigned, unprefixed⟩ := strip_digits rest (fun byte member =>
    isDigit_hex small (digits byte member)) (fun empty => absurd empty filled) unmarked
  have head : (front ++ stop :: rest).head? = front.head? := by
    rcases exists_cons_of_ne_nil filled with ⟨first, more, rfl⟩
    rfl
  have stopped : (front ++ stop :: rest).dropWhile (isDigit digitBase) = stop :: rest := by
    rw [dropWhile_append_of_pos digits, dropWhile_cons_of_neg (ne_true_of_eq_false stops)]
  have noStop : digitValue digitBase stop = none := by
    rwa [isDigit, isSome_eq_false_iff, isNone_iff_eq_none] at stops
  rw [strtoul]
  simp only [unsigned, unprefixed, ne_eq, not_true_eq_false, false_and, and_false,
    Bool.false_eq_true, if_false, head, chosen, scanDigits_stop noStop, read, elim_some, stopped]

theorem cut_small (small : value ≤ 0x10FFFF) :
    (if ulongMax < value then ulongMax else value) % 2 ^ 32 = value := by
  rw [if_neg (by rw [ulongMax]; omega), Nat.mod_eq_of_lt (by omega)]

theorem referenceNumber_digits (filled : front ≠ [])
    (digits : ∀ byte ∈ front, isDigit 16 byte = true) (rest : Bytes) :
    referenceNumber (front ++ rest) = strtoul 0 (front ++ rest) := by
  rcases exists_cons_of_ne_nil filled with ⟨first, more, rfl⟩
  have plain := hexDigit_plain (digits first mem_cons_self)
  rw [referenceNumber, if_neg]
  rintro (marked | marked)
  · exact plain.2.2.2.1 (Option.some.inj marked)
  · exact plain.2.2.2.2 (Option.some.inj marked)

theorem reference_ended {b rest : Bytes} (read : referenceNumber b = (value, 59 :: rest)) :
    reference b = (unichar value, rest) := by
  rw [reference, read]
  rfl

theorem reference_lost {b rest : Bytes} (read : referenceNumber b = (value, stop :: rest))
    (other : stop ≠ 59) : reference b = ([], stop :: rest) := by
  rw [reference, read]
  exact if_neg fun same => other (Option.some.inj same)

/-! ### Decoding what was encoded -/

theorem char_bound (char : Char) : char.toNat ≤ 0x10FFFF := by
  have valid : char.toNat.isValidChar := char.valid
  rw [Nat.isValidChar] at valid
  omega

theorem utf8EncodeChar_eq (char : Char) : String.utf8EncodeChar char = unichar char.toNat := by
  have bound := char_bound char
  change String.utf8EncodeChar char = unichar char.val.toNat
  change char.val.toNat ≤ _ at bound
  rw [String.utf8EncodeChar, unichar]
  by_cases one : char.val.toNat < 0x80
  · rw [if_pos (by omega), if_pos one]
  · rw [if_neg (by omega), if_neg one]
    by_cases two : char.val.toNat < 0x800
    · rw [if_pos (by omega), if_pos two, Nat.mod_eq_of_lt (by omega)]
      rfl
    · rw [if_neg (by omega), if_neg two]
      by_cases three : char.val.toNat < 0x10000
      · rw [if_pos (by omega), if_pos three, Nat.mod_eq_of_lt (by omega)]
        rfl
      · rw [if_neg (by omega), if_neg three, if_pos (by omega), Nat.mod_eq_of_lt (by omega)]
        rfl

theorem decimal_head {number : Nat} (positive : 0 < number) : (decimal number).head? ≠ some 48 := by
  induction number using Nat.strongRecOn with
  | ind number ih =>
    by_cases low : number < 10
    · rw [decimal_low low]
      intro zero
      have spelled := congrArg UInt8.toNat (Option.some.inj zero)
      rw [digit_toNat low] at spelled
      change 48 + number = 48 at spelled
      omega
    · rw [decimal_high low, head?_append_of_ne_nil _ (decimal_ne_nil _)]
      exact ih (number / 10) (by omega) (by omega)

theorem encode_low {char : Char} (low : char.toNat < 0x80) (text : List Char) :
    encode (char :: text) = UInt8.ofNat char.toNat :: encode text := by
  rw [encode_cons, utf8EncodeChar_eq, unichar, if_pos low]
  rfl

theorem encoded_head {text : List Char} (mark : (purpleUtf8NcrEncode text).head? = some 35) :
    ∃ rest, encode text = 35 :: rest := by
  cases text with
  | nil => cases mark
  | cons char text =>
    rw [purpleUtf8NcrEncode, flatMap_cons] at mark
    split at mark
    · cases mark
    · rename_i low
      rw [encode_low (Nat.not_le.mp low), Option.some.inj mark]
      exact ⟨_, rfl⟩

theorem decode_encode (text : List Char) (plain : ¬[38, 35] <:+: encode text) :
    purpleUtf8NcrDecode (purpleUtf8NcrEncode text) = encode text := by
  induction text with
  | nil => exact decode_nil
  | cons char text ih =>
    have later := ih fun inside => plain (by
      rw [encode_cons]
      exact inside.trans (suffix_append _ _).isInfix)
    rw [purpleUtf8NcrEncode, flatMap_cons]
    split
    · rename_i high
      have filled := decimal_ne_nil char.toNat
      have digits : ∀ byte ∈ decimal char.toNat, isDigit 10 byte = true := fun byte member =>
        isSome_iff_ne_none.mpr (digitValue_decimal _ byte member)
      have read := @strtoul_digits 0 10 char.toNat 59 _ filled digits (by decide) rfl (by decide)
        (by rw [if_pos rfl, if_neg (decimal_head (by omega))]) (scanDigits_decimal _)
        (purpleUtf8NcrEncode text)
      rw [cut_small (char_bound char), ← referenceNumber_digits filled fun byte member =>
        isDigit_hex (by decide) (digits byte member)] at read
      rw [append_assoc, append_assoc, encode_cons, utf8EncodeChar_eq, ← later]
      change purpleUtf8NcrDecode (38 :: 35 :: (decimal char.toNat ++ 59 :: purpleUtf8NcrEncode text)) = _
      rw [decode_reference, reference_ended read]
    · rename_i low
      rw [Nat.not_le] at low
      change purpleUtf8NcrDecode (UInt8.ofNat char.toNat :: purpleUtf8NcrEncode text) = _
      rw [decode_skip, later, encode_low low]
      intro marks
      rcases encoded_head marks.2 with ⟨rest, same⟩
      apply plain
      rw [encode_low low, marks.1, same]
      exact (prefix_append [38, 35] rest).isInfix

/-! ### References by their number -/

theorem tailByte_toNat (bits : Nat) : (tailByte bits).toNat = bits % 64 + 0x80 :=
  ofNat_toNat (by omega)

/-- The markers of the lead byte and of the others, where there are so many bytes. -/
def markers (length : Nat) : Nat :=
  if length = 1 then 0 else if length = 2 then 12416 else if length = 3 then 925824 else 63447168

theorem unichar_value (small : value ≤ 0x10FFFF) :
    (unichar value).foldl (fun sum byte => sum * 64 + byte.toNat) 0 =
      value + markers (unichar value).length := by
  rw [unichar]
  by_cases one : value < 0x80
  · rw [if_pos one, foldl_cons, foldl_nil, ofNat_toNat (by omega)]
    exact Nat.zero_add _
  · rw [if_neg one]
    by_cases two : value < 0x800
    · rw [if_pos two]
      simp only [foldl_cons, foldl_nil, tailByte_toNat]
      rw [ofNat_toNat (by omega)]
      change _ = value + 12416
      omega
    · rw [if_neg two]
      by_cases three : value < 0x10000
      · rw [if_pos three]
        simp only [foldl_cons, foldl_nil, tailByte_toNat]
        rw [ofNat_toNat (by omega)]
        change _ = value + 925824
        omega
      · rw [if_neg three, if_pos (by omega)]
        simp only [foldl_cons, foldl_nil, tailByte_toNat]
        rw [ofNat_toNat (by omega)]
        change _ = value + 63447168
        omega

theorem unichar_inj {other : Nat} (small : value ≤ 0x10FFFF) (small' : other ≤ 0x10FFFF)
    (same : unichar value = unichar other) : value = other := by
  have sums := unichar_value small
  rw [same, unichar_value small'] at sums
  exact (Nat.add_right_cancel sums).symm

/-- No two digits and a semicolon are the bytes of one character. -/
theorem unichar_ne (small : value ≤ 0x10FFFF) (digit : stop.toNat < 0x80) {rest : Bytes}
    (more : rest ≠ []) : unichar value ≠ stop :: rest := by
  rw [unichar]
  have lead {number : Nat} (high : 0x80 ≤ number) (byte : number < 256) : UInt8.ofNat number ≠ stop := by
    intro same
    rw [← same, ofNat_toNat byte] at digit
    omega
  by_cases one : value < 0x80
  · rw [if_pos one]
    exact fun same => more (List.cons.inj same).2.symm
  · rw [if_neg one]
    split
    · exact fun same => lead (by omega) (by omega) (List.cons.inj same).1
    · split
      · exact fun same => lead (by omega) (by omega) (List.cons.inj same).1
      · rw [if_pos (by omega)]
        exact fun same => lead (by omega) (by omega) (List.cons.inj same).1

theorem octal_digit {byte : UInt8} (digit : isDigit 8 byte = true) :
    ∃ number < 8, digitValue 8 byte = some number ∧ digitValue 10 byte = some number := by
  obtain ⟨number, read⟩ := isSome_iff_exists.mp digit
  obtain ⟨spelled, below⟩ := filter_eq_some_iff.mp read
  have small := of_decide_eq_true below
  exact ⟨number, small, read,
    filter_eq_some_iff.mpr ⟨spelled, decide_eq_true (Nat.lt_of_lt_of_le small (by decide))⟩⟩

/-- Digits behind zeros, read to the base 8 and 10. -/
theorem octal_value {octal decimal : Nat} (digits : ∀ byte ∈ front, isDigit 8 byte = true)
    (start : octal < decimal ∧ 8 ≤ decimal ∨ octal = decimal ∧ decimal < 8)
    (read : scanDigits 10 (some decimal) front = some value) :
    ∃ number, scanDigits 8 (some octal) front = some number ∧
      (number < value ∧ 8 ≤ value ∨ number = value ∧ value < 8) := by
  induction front generalizing octal decimal with
  | nil => exact ⟨octal, rfl, Option.some.inj read ▸ start⟩
  | cons byte front ih =>
    obtain ⟨number, small, eight, ten⟩ := octal_digit (digits byte mem_cons_self)
    rw [scanDigits, ten] at read
    rw [scanDigits, eight]
    refine ih (fun other member => digits other (mem_cons_of_mem _ member)) ?_ read
    dsimp only [getD_some]
    omega

/-- A digit that is not octal makes the number 8 or more. -/
theorem octal_of_small {decimal : Nat} (digits : ∀ byte ∈ front, isDigit 10 byte = true)
    (read : scanDigits 10 (some decimal) front = some value) :
    decimal ≤ value ∧ (value < 8 → ∀ byte ∈ front, isDigit 8 byte = true) := by
  induction front generalizing decimal with
  | nil => exact ⟨Nat.le_of_eq (Option.some.inj read), fun _ => forall_mem_nil _⟩
  | cons byte front ih =>
    obtain ⟨number, ten⟩ := isSome_iff_exists.mp (digits byte mem_cons_self)
    rw [scanDigits, ten] at read
    obtain ⟨least, octal⟩ := ih (fun other member => digits other (mem_cons_of_mem _ member)) read
    rw [getD_some] at least
    refine ⟨by omega, fun small => forall_mem_cons.mpr ⟨?_, octal small⟩⟩
    obtain ⟨spelled, -⟩ := filter_eq_some_iff.mp ten
    exact isSome_iff_exists.mpr ⟨number, filter_eq_some_iff.mpr
      ⟨spelled, decide_eq_true (by omega)⟩⟩

/-- Digits, with or without zeros in front, of a number in decimal or hexadecimal. -/
structure Spells (hexadecimal : Bool) (digits : Bytes) (value : Nat) : Prop where
  spelled : ∀ byte ∈ digits, isDigit (if hexadecimal then 16 else 10) byte = true
  value : scanDigits (if hexadecimal then 16 else 10) none digits = some value

def ncr (hexadecimal : Bool) (digits : Bytes) : Bytes :=
  38 :: 35 :: ((if hexadecimal then [120] else []) ++ digits ++ [59])

theorem scanned_ne_nil (read : scanDigits base none front = some value) : front ≠ [] := by
  rintro rfl
  cases read

theorem decode_ended {b : Bytes} (read : referenceNumber b = (value, [59])) :
    purpleUtf8NcrDecode (38 :: 35 :: b) = unichar value := by
  rw [decode_reference, reference_ended read, decode_nil, append_nil]

theorem decode_plain {text : Bytes} (plain : 38 ∉ text) : purpleUtf8NcrDecode text = text := by
  induction text with
  | nil => exact decode_nil
  | cons byte text ih =>
    rw [decode_skip fun mark => plain (mark.1 ▸ mem_cons_self),
      ih fun member => plain (mem_cons_of_mem _ member)]

theorem scanDigits_some (base value : Nat) (text : Bytes) :
    ∃ number, scanDigits base (some value) text = some number := by
  induction text generalizing value with
  | nil => exact ⟨value, rfl⟩
  | cons byte text ih =>
    rw [scanDigits]
    cases digitValue base byte with
    | none => exact ⟨value, rfl⟩
    | some digit => exact ih _

theorem decimalDigit_low {byte : UInt8} (digit : isDigit 10 byte = true) : byte.toNat < 0x80 := by
  obtain ⟨number, read⟩ := isSome_iff_exists.mp digit
  obtain ⟨spelled, below⟩ := filter_eq_some_iff.mp read
  have small := of_decide_eq_true below
  split at spelled
  · rename_i range
    have most := UInt8.le_iff_toNat_le.mp range.2
    change byte.toNat ≤ 57 at most
    omega
  · split at spelled
    · rename_i range
      have least := UInt8.le_iff_toNat_le.mp range.1
      rw [← Option.some.inj spelled] at small
      change 97 ≤ (asciiToLower byte).toNat at least
      omega
    · cases spelled

theorem zero_decoded_iff {ds : Bytes} (small : value ≤ 0x10FFFF)
    (spells : Spells false (48 :: ds) value) :
    purpleUtf8NcrDecode (ncr false (48 :: ds)) = unichar value ↔ value < 8 := by
  have decimal : ∀ byte ∈ (48 : UInt8) :: ds, isDigit 10 byte = true := spells.spelled
  have read : scanDigits 10 (some 0) ds = some value := spells.value
  have hexDigits {front : Bytes} (part : front <+: 48 :: ds) :
      ∀ byte ∈ front, isDigit 16 byte = true := fun byte member =>
    isDigit_hex (by decide) (decimal byte (part.mem member))
  by_cases octal : ∀ byte ∈ (48 : UInt8) :: ds, isDigit 8 byte = true
  · obtain ⟨number, read8, kinds⟩ := @octal_value value ds 0 0
      (fun byte member => octal byte (mem_cons_of_mem _ member)) (Or.inr ⟨rfl, by decide⟩) read
    have number8 := @strtoul_digits 0 8 number 59 (48 :: ds) (cons_ne_nil _ _) octal
      (by decide) rfl (by decide) rfl read8 []
    have below : number ≤ 0x10FFFF := by omega
    rw [cut_small below, ← referenceNumber_digits (cons_ne_nil _ _)
      (hexDigits (prefix_refl _))] at number8
    have decoded : purpleUtf8NcrDecode (ncr false (48 :: ds)) = unichar number := decode_ended number8
    rw [decoded]
    rcases kinds with ⟨less, large⟩ | ⟨same, low⟩
    · exact iff_of_false (fun same => absurd (unichar_inj below small same) (Nat.ne_of_lt less))
        (Nat.not_lt.mpr large)
    · exact iff_of_true (congrArg unichar same) low
  · apply iff_of_false
    · have parts := @takeWhile_append_dropWhile _ (isDigit 8) (48 :: ds)
      have front : ∀ byte ∈ (48 :: ds).takeWhile (isDigit 8), isDigit 8 byte = true := fun byte =>
        mem_takeWhile_imp
      have last := head?_dropWhile_not (isDigit 8) (48 :: ds)
      cases rest : (48 :: ds).dropWhile (isDigit 8) with
      | nil =>
        rw [rest, append_nil] at parts
        rw [parts] at front
        exact absurd front octal
      | cons stop more =>
        rw [rest] at last parts
        have inside {byte : UInt8} (member : byte ∈ stop :: more) : isDigit 10 byte = true :=
          decimal byte (by rw [← parts]; exact mem_append_right _ member)
        have stopLow := decimalDigit_low (inside mem_cons_self)
        have stopPlain := hexDigit_plain (isDigit_hex (by decide) (inside mem_cons_self))
        obtain ⟨number, read8⟩ := scanDigits_some 8 0 (ds.takeWhile (isDigit 8))
        have number8 := @strtoul_digits 0 8 number stop (48 :: ds.takeWhile (isDigit 8))
          (cons_ne_nil _ _) front (by decide) last stopPlain.2.2.2 rfl read8 (more ++ [59])
        have initial : 48 :: ds.takeWhile (isDigit 8) <+: 48 :: ds :=
          takeWhile_prefix (l := 48 :: ds) (isDigit 8)
        rw [← referenceNumber_digits (cons_ne_nil _ _) (hexDigits initial)] at number8
        have whole : (48 :: ds) ++ [59] = 48 :: ds.takeWhile (isDigit 8) ++ stop :: (more ++ [59]) := by
          rw [← cons_append, ← append_assoc]
          exact congrArg (· ++ [59]) parts.symm
        have noSemicolon : stop ≠ 59 := by
          rintro rfl
          exact absurd (inside mem_cons_self) (by decide)
        have plain : 38 ∉ stop :: (more ++ [59]) := by
          intro member
          rw [← cons_append] at member
          rcases mem_append.mp member with digit | semicolon
          · exact absurd (inside digit) (by decide)
          · exact absurd (mem_singleton.mp semicolon) (by decide)
        change purpleUtf8NcrDecode (38 :: 35 :: ((48 :: ds) ++ [59])) ≠ _
        rw [decode_reference, whole, reference_lost number8 noSemicolon, nil_append,
          decode_plain plain]
        exact (unichar_ne small stopLow (by simp)).symm
    · intro low
      apply octal
      exact forall_mem_cons.mpr ⟨rfl, (octal_of_small (fun byte member =>
        decimal byte (mem_cons_of_mem _ member)) read).2 low⟩

theorem ncr_decoded_iff {hexadecimal : Bool} {digits : Bytes} (small : value ≤ 0x10FFFF)
    (spells : Spells hexadecimal digits value) :
    purpleUtf8NcrDecode (ncr hexadecimal digits) = unichar value ↔
      hexadecimal = true ∨ digits.head? ≠ some 48 ∨ value < 8 := by
  have filled := scanned_ne_nil spells.value
  cases hexadecimal with
  | true =>
    have read := @strtoul_digits 16 16 value 59 digits filled spells.spelled (by decide) rfl
      (by decide) rfl spells.value []
    rw [cut_small small] at read
    exact iff_of_true (decode_ended read) (Or.inl rfl)
  | false =>
    by_cases zero : digits.head? = some 48
    · rcases head?_eq_some_iff.mp zero with ⟨ds, rfl⟩
      rw [zero_decoded_iff small spells]
      simp only [Bool.false_eq_true, head?_cons, ne_eq, not_true_eq_false, false_or]
    · have read := @strtoul_digits 0 10 value 59 digits filled spells.spelled (by decide) rfl
        (by decide) (by rw [if_pos rfl, if_neg zero]) spells.value []
      rw [cut_small small, ← referenceNumber_digits filled fun byte member =>
        isDigit_hex (by decide) (spells.spelled byte member)] at read
      exact iff_of_true (decode_ended read) (Or.inr (Or.inl zero))

theorem purpleUtf8Ncr_decodes_iff (text : List Char) (hexadecimal : Bool) (digits : Bytes)
    (value : Nat) :
    (¬[38, 35] <:+: encode text →
      purpleUtf8NcrDecode (purpleUtf8NcrEncode text) = encode text) ∧
    (1 ≤ value → value ≤ 0x10FFFF → Spells hexadecimal digits value →
      (purpleUtf8NcrDecode (ncr hexadecimal digits) = unichar value ↔
        hexadecimal = true ∨ digits.head? ≠ some 48 ∨ value < 8)) :=
  ⟨decode_encode text, fun _ small spells => ncr_decoded_iff small spells⟩

/-- `&#010;` -/
theorem leadingZero_octal :
    Spells false (ascii "010") 10 ∧ purpleUtf8NcrDecode (ncr false (ascii "010")) ≠ unichar 10 := by
  have digits : (ascii "010").all (isDigit 10) = true := by decide
  have spells : Spells false (ascii "010") 10 := ⟨List.all_eq_true.mp digits, rfl⟩
  refine ⟨spells, ?_⟩
  rw [ne_eq, ncr_decoded_iff (by decide) spells]
  decide

end Purple.NcrDecode
