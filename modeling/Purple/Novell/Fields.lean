/-
Field arrays of the Novell protocol and what `nm_write_fields` sends for them.

A text is the bytes before its NUL; the data behind `ptr_value` is the one the field's
type calls for.  The transport takes every write in full, so a run is the list of its
writes.
-/

import Purple.Decimal

namespace Purple.Novell

open List CString Decimal

abbrev Bytes := List UInt8

structure Tag where
  bytes : Bytes
  clean : 0 ∉ bytes
  short : bytes.length < 4000

inductive TextType where
  | utf8
  | dn
deriving DecidableEq, Repr

inductive ArrayType where
  | array
  | mv
deriving DecidableEq, Repr

structure NumberType where
  code : UInt8
  other : code ∉ [2, 9, 10, 12, 13]

inductive NMField where
  | text (tag : Tag) (method : UInt8) (type : TextType) (ptrValue : Bytes)
  | array (tag : Tag) (method : UInt8) (type : ArrayType) (ptrValue : List NMField)
  | number (tag : Tag) (method : UInt8) (type : NumberType) (value : UInt32)
  | binary (tag : Tag) (method : UInt8)

namespace NMField

def tag : NMField → Tag
  | .text tag _ _ _ => tag
  | .array tag _ _ _ => tag
  | .number tag _ _ _ => tag
  | .binary tag _ => tag

def method : NMField → UInt8
  | .text _ method _ _ => method
  | .array _ method _ _ => method
  | .number _ method _ _ => method
  | .binary _ method => method

def type : NMField → UInt8
  | .text _ _ .utf8 _ => 10
  | .text _ _ .dn _ => 13
  | .array _ _ .array _ => 9
  | .array _ _ .mv _ => 12
  | .number _ _ type _ => type.code
  | .binary _ _ => 2

/-- Fields that are ignored or binary are not written. -/
def skipped (field : NMField) : Bool := field.method == 1 || field.type == 2

end NMField

def noEscape (ch : UInt8) : Bool :=
  ch == 0x20 || (0x30 ≤ ch && ch ≤ 0x39) || (0x41 ≤ ch && ch ≤ 0x5a) || (0x61 ≤ ch && ch ≤ 0x7a)

def hexTable (digit : Nat) : UInt8 := (ascii "0123456789abcdef").getD digit 0

def escapeByte (ch : UInt8) : Bytes :=
  if noEscape ch then if ch = 0x20 then [43] else [ch]
  else [37, hexTable (ch.toNat / 16), hexTable (ch.toNat % 16)]

def urlEscapeString (src : Bytes) : Bytes := src.flatMap escapeByte

def encodeMethod (method : UInt8) : Bytes :=
  if method = 4 then ascii "G"
  else if method = 6 then ascii "F"
  else if method = 10 then ascii "E"
  else if method = 12 then ascii "D"
  else if method = 14 then ascii "C"
  else if method = 15 then ascii "B"
  else if method = 16 then ascii "A"
  else if method = 17 then ascii "9"
  else if method = 19 then ascii "8"
  else if method = 20 then ascii "7"
  else if method = 40 then ascii "6"
  else if method = 41 then ascii "5"
  else if method = 42 then ascii "4"
  else if method = 3 then ascii "3"
  else if method = 2 then ascii "2"
  else if method = 5 then ascii "1"
  else ascii "0"

/-- The count is a `guint32`. -/
def nmCountFields (fields : List NMField) : Nat := fields.length % 2 ^ 32

def bufferSize : Nat := 4096

/-- A formatted text and the write of it: what does not fit is cut for its NUL, which is sent
too. -/
def writeValue (formatted : Bytes) : Bytes :=
  if formatted.length < bufferSize then formatted else formatted.take (bufferSize - 1) ++ [0]

def item (name : String) (value : Bytes) : Bytes := ascii name ++ value

def NMField.valueWrite : NMField → Bytes
  | .text _ _ _ ptrValue => writeValue (item "&val=" (urlEscapeString ptrValue))
  | .array _ _ _ ptrValue => item "&val=" (decimal (nmCountFields ptrValue))
  | .number _ _ _ value => item "&val=" (decimal value.toNat)
  | .binary _ _ => []

def NMField.ownWrites (field : NMField) : List Bytes :=
  [item "&tag=" field.tag.bytes, item "&cmd=" (encodeMethod field.method), field.valueWrite,
    item "&type=" (decimal field.type.toNat)]

/-- `val > 0` for the count in an `int`. -/
def valPositive (fields : List NMField) : Bool := 0 < (nmCountFields fields : Int).bmod (2 ^ 32)

mutual

def subWrites : NMField → List Bytes
  | .array _ _ _ ptrValue => if valPositive ptrValue then nmWriteFields ptrValue else []
  | _ => []

def nmWriteFields : List NMField → List Bytes
  | [] => []
  | field :: fields =>
    if field.skipped then nmWriteFields fields
    else field.ownWrites ++ subWrites field ++ nmWriteFields fields

end

structure Entry where
  tag : Bytes
  method : Bytes
  value : Bytes
  type : Bytes
deriving DecidableEq, Repr

def sentCount (fields : List NMField) : Nat := fields.countP fun field => !field.skipped

/-- An array is seen by the number of its fields that are sent. -/
def NMField.plainValue : NMField → Bytes
  | .text _ _ _ ptrValue => ptrValue
  | .array _ _ _ ptrValue => decimal (sentCount ptrValue)
  | .number _ _ _ value => decimal value.toNat
  | .binary _ _ => []

def NMField.entry (field : NMField) : Entry :=
  { tag := field.tag.bytes
    method := encodeMethod field.method
    value := field.plainValue
    type := decimal field.type.toNat }

mutual

def subEntries : NMField → List Entry
  | .array _ _ _ ptrValue => entries ptrValue
  | _ => []

def entries : List NMField → List Entry
  | [] => []
  | field :: fields =>
    if field.skipped then entries fields else field.entry :: (subEntries field ++ entries fields)

end

def Entry.items (entry : Entry) : List Bytes :=
  [item "&tag=" entry.tag, item "&cmd=" entry.method, item "&val=" (urlEscapeString entry.value),
    item "&type=" entry.type]

def Entry.pieces (entry : Entry) : List Bytes :=
  [item "tag=" entry.tag, item "cmd=" entry.method, item "val=" entry.value, item "type=" entry.type]

def allItems (fields : List NMField) : List Bytes := (entries fields).flatMap Entry.items

def urlDecode : Bytes → Bytes
  | [] => []
  | byte :: rest =>
    if byte = 37 then
      UInt8.ofNat (((digitValue 16 (rest.headD 0)).getD 0) * 16 +
        (digitValue 16 ((rest.drop 1).headD 0)).getD 0) :: urlDecode (rest.drop 2)
    else (if byte = 43 then 32 else byte) :: urlDecode rest
termination_by text => text.length
decreasing_by
  · rw [length_cons, List.length_drop]
    omega
  · exact Nat.lt_succ_self _

def decodePiece (piece : Bytes) : Bytes :=
  if piece.take 4 = ascii "val=" then item "val=" (urlDecode (piece.drop 4)) else piece

/-- The complete items are sent, and splitting them and decoding the values gives the fields. -/
def Delivers (fields : List NMField) : Prop :=
  (nmWriteFields fields).flatten = (allItems fields).flatten ∧
  ((nmWriteFields fields).flatten.splitOn 38).map decodePiece =
    [] :: (entries fields).flatMap Entry.pieces

theorem hexTable_value {digit : Nat} (small : digit < 16) :
    digitValue 16 (hexTable digit) = some digit := by
  have every : ∀ digit < 16, digitValue 16 (hexTable digit) = some digit := by decide +kernel
  exact every digit small

theorem noEscape_ne {ch : UInt8} (plain : noEscape ch = true) :
    ch ≠ 37 ∧ ch ≠ 43 ∧ ch ≠ 38 ∧ ch ≠ 0 := by
  refine ⟨?_, ?_, ?_, ?_⟩
  all_goals
    rintro rfl
    exact absurd plain (by decide)

theorem urlDecode_escapeByte (ch : UInt8) (rest : Bytes) :
    urlDecode (escapeByte ch ++ rest) = ch :: urlDecode rest := by
  rw [escapeByte]
  by_cases plain : noEscape ch = true
  · rw [if_pos plain]
    by_cases blank : ch = 0x20
    · rw [if_pos blank, blank]
      change urlDecode (43 :: rest) = _
      rw [urlDecode, if_neg (by decide), if_pos rfl]
    · rw [if_neg blank]
      change urlDecode (ch :: rest) = _
      rw [urlDecode, if_neg (noEscape_ne plain).1, if_neg (noEscape_ne plain).2.1]
  · have bound := ch.toNat_lt
    have high := hexTable_value (show ch.toNat / 16 < 16 by omega)
    have low := hexTable_value (Nat.mod_lt ch.toNat (show 0 < 16 by decide))
    rw [if_neg plain]
    change urlDecode (37 :: hexTable (ch.toNat / 16) :: hexTable (ch.toNat % 16) :: rest) = _
    rw [urlDecode, if_pos rfl]
    change UInt8.ofNat ((digitValue 16 (hexTable (ch.toNat / 16))).getD 0 * 16 +
      (digitValue 16 (hexTable (ch.toNat % 16))).getD 0) :: urlDecode rest = _
    rw [high, low, Option.getD_some, Option.getD_some]
    have whole : ch.toNat / 16 * 16 + ch.toNat % 16 = ch.toNat := by omega
    rw [whole, UInt8.ofNat_toNat]

theorem urlDecode_urlEscapeString (src : Bytes) : urlDecode (urlEscapeString src) = src := by
  induction src with
  | nil => rw [urlEscapeString, flatMap_nil, urlDecode]
  | cons ch src ih =>
    rw [urlEscapeString, flatMap_cons, urlDecode_escapeByte]
    exact congrArg (ch :: ·) ih

theorem hexTable_clean {digit : Nat} (small : digit < 16) :
    hexTable digit ≠ 38 ∧ hexTable digit ≠ 0 := by
  have every : ∀ digit < 16, hexTable digit ≠ 38 ∧ hexTable digit ≠ 0 := by decide +kernel
  exact every digit small

theorem escapeByte_clean {ch byte : UInt8} (member : byte ∈ escapeByte ch) : byte ≠ 38 ∧ byte ≠ 0 := by
  rw [escapeByte] at member
  by_cases plain : noEscape ch = true
  · rw [if_pos plain] at member
    split at member
    · rw [mem_singleton.mp member]
      decide
    · rw [mem_singleton.mp member]
      exact (noEscape_ne plain).2.2
  · have bound := ch.toNat_lt
    rw [if_neg plain] at member
    simp only [mem_cons, not_mem_nil, or_false] at member
    obtain rfl | rfl | rfl := member
    · decide
    · exact hexTable_clean (by omega)
    · exact hexTable_clean (by omega)

theorem urlEscapeString_clean (src : Bytes) : 38 ∉ urlEscapeString src ∧ 0 ∉ urlEscapeString src := by
  constructor
  all_goals
    intro member
    obtain ⟨ch, _, inside⟩ := mem_flatMap.mp member
    have clean := escapeByte_clean inside
  · exact clean.1 rfl
  · exact clean.2 rfl

theorem digit_noEscape {byte : UInt8} (digit : 48 ≤ byte.toNat ∧ byte.toNat ≤ 57) :
    escapeByte byte = [byte] := by
  have plain : noEscape byte = true := by
    have low : (0x30 : UInt8) ≤ byte := digit.1
    have high : byte ≤ 0x39 := digit.2
    rw [noEscape, decide_eq_true low, decide_eq_true high, Bool.and_true, Bool.or_true, Bool.true_or,
      Bool.true_or]
  have blank : byte ≠ 0x20 := by
    rintro rfl
    exact absurd digit.1 (by decide)
  rw [escapeByte, if_pos plain, if_neg blank]

theorem urlEscapeString_decimal (value : Nat) : urlEscapeString (decimal value) = decimal value := by
  have digits := decimal_digits value
  generalize decimal value = text at digits ⊢
  induction text with
  | nil => rfl
  | cons byte text ih =>
    rw [urlEscapeString, flatMap_cons, digit_noEscape (digits byte mem_cons_self)]
    exact congrArg (byte :: ·) (ih fun other member => digits other (mem_cons_of_mem _ member))

end Purple.Novell
