/-
The answer to an MSN challenge, `msn_handle_chl` of msnutils.c.

A signed 64-bit operation whose result does not fit makes the function `none`, as an
access outside one of its buffers does.  `GUINT_TO_LE` and the casts between byte and
integer arrays give the value of four bytes with the lowest first on either kind of
host.  The MD5 digest is a parameter.
-/

import Mathlib.Data.List.TakeWhile
import Mathlib.Data.Vector.Defs
import Purple.CString
import Purple.Endian

namespace Purple.Msn

open List hiding Vector
open Option Memory CString Endian

abbrev Md5 := List UInt8 → Vector UInt8 16

def productKey : List UInt8 := ascii "ILTXC!4IXB5FB*PX"

def productID : List UInt8 := ascii "PROD0119GSJUC$18"

def hexChars : List UInt8 := ascii "0123456789abcdef"

def bufsize : Nat := 256

/-- The result of a `long long` operation. -/
def int64 (value : Int) : Option Int :=
  if -2 ^ 63 ≤ value ∧ value < 2 ^ 63 then some value else none

def chlModulus : Int := 0x7FFFFFFF

/-- The integer at an index of a byte array that is read as `unsigned int`. -/
def hashPart (hash : Vector UInt8 16) (index : Fin 4) : UInt32 :=
  UInt32.ofNat (littleValue ((hash.toList.drop (4 * index)).take 4))

def chlStringPart (buf : Block UInt8) (index : Nat) : Option UInt32 := do
  let cells ← buf.load (4 * index) 4
  let bytes ← cells.mapM id
  some (UInt32.ofNat (littleValue bytes))

structure ChlSums where
  nHigh : Int
  nLow : Int
deriving DecidableEq, Repr

/-- `(factor * value + addend) % 0x7FFFFFFF` -/
def mulAddMod (factor addend : UInt32) (value : Int) : Option Int := do
  let product ← int64 (factor.toNat * value)
  let sum ← int64 (product + addend.toNat)
  some (sum.tmod chlModulus)

def chlRound (md5Parts : Fin 4 → UInt32) (first second : UInt32) (sums : ChlSums) :
    Option ChlSums := do
  let scaled ← int64 (0x0E79A9C1 * first.toNat)
  let shifted ← int64 (scaled.tmod chlModulus + sums.nLow)
  let temp ← mulAddMod (md5Parts 0) (md5Parts 1) shifted
  let nHigh ← int64 (sums.nHigh + temp)
  let sum ← int64 (second.toNat + temp)
  let nLow ← mulAddMod (md5Parts 2) (md5Parts 3) (sum.tmod chlModulus)
  let nHigh ← int64 (nHigh + nLow)
  some { nHigh, nLow }

def chlLoop (turn : UInt32 → UInt32 → ChlSums → Option ChlSums) (buf : Block UInt8) :
    Nat → Nat → ChlSums → Option ChlSums
  | 0, _, sums => some sums
  | turns + 1, index, sums => do
    let first ← chlStringPart buf index
    let second ← chlStringPart buf (index + 1)
    let sums ← turn first second sums
    chlLoop turn buf turns (index + 2) sums

/-- Zeros up to the next multiple of eight, with a new NUL behind them. -/
def padChl (buf : Block UInt8) (len : Nat) : Option (Block UInt8 × Nat) :=
  if len % 8 ≠ 0 then do
    let fix := 8 - len % 8
    let buf ← buf.store len (((ascii "00000000").take fix).map some)
    let buf ← buf.store (len + fix) [some 0]
    some (buf, len + fix)
  else some (buf, len)

/-- The work buffer and the length of its string; `snprintf` is given all but five
bytes of it and cuts the text there. -/
def chlString (input : List UInt8) : Option (Block UInt8 × Nat) := do
  let text := (input ++ productID).take (bufsize - 5 - 1)
  let buf ← Block.store (List.replicate bufsize none) 0 ((text ++ [0]).map some)
  let text ← blockString buf
  padChl buf text.length

def hexChar (nibble : UInt8) : Option UInt8 := hexChars[(nibble &&& 0xF).toNat]?

def writeHex (output : Block UInt8) (offset : Nat) : List UInt8 → Option (Block UInt8)
  | [] => some output
  | byte :: rest => do
    let high ← hexChar (byte >>> 4)
    let output ← output.store offset [some high]
    let low ← hexChar byte
    let output ← output.store (offset + 1) [some low]
    writeHex output (offset + 2) rest

def newHash (hash : Vector UInt8 16) (nHigh nLow : Int) : List UInt8 :=
  [hashPart hash 0 ^^^ UInt32.ofInt nLow, hashPart hash 1 ^^^ UInt32.ofInt nHigh,
    hashPart hash 2 ^^^ UInt32.ofInt nLow, hashPart hash 3 ^^^ UInt32.ofInt nHigh].flatMap
      fun part => little 4 part.toNat

def msnHandleChl (md5 : Md5) (input : List UInt8) (output : Block UInt8) :
    Option (Block UInt8) := do
  let input := cString input
  let hash := md5 (input ++ productKey)
  let md5Parts := fun index => hashPart hash index &&& 0x7FFFFFFF
  let (buf, len) ← chlString input
  let sums ← chlLoop (chlRound md5Parts) buf ((len / 4 + 1) / 2) 0 { nHigh := 0, nLow := 0 }
  let nLow ← int64 (sums.nLow + (md5Parts 1).toNat)
  let nHigh ← int64 (sums.nHigh + (md5Parts 3).toNat)
  let output ← writeHex output 0
    (newHash hash (nHigh.tmod chlModulus) (nLow.tmod chlModulus))
  output.store 32 [some 0]

theorem int64_some (value : Int) (low : 0 ≤ value) (high : value < 2 ^ 63) :
    int64 value = some value :=
  if_pos ⟨by omega, high⟩

theorem tmod_modulus (value : Int) (low : 0 ≤ value) :
    0 ≤ value.tmod chlModulus ∧ value.tmod chlModulus < 0x7FFFFFFF := by
  constructor
  · exact Int.tmod_nonneg _ low
  · exact Int.tmod_lt_of_pos value (by decide)

theorem mulAddMod_some {factor addend : UInt32} (value : Int)
    (maskedFactor : factor.toNat ≤ 0x7FFFFFFF) (maskedAddend : addend.toNat ≤ 0x7FFFFFFF)
    (low : 0 ≤ value) (high : value < 2 ^ 32) :
    ∃ result, mulAddMod factor addend value = some result ∧
      0 ≤ result ∧ result < 0x7FFFFFFF := by
  have productStart : 0 ≤ (factor.toNat : Int) * value :=
    Int.mul_nonneg (Int.natCast_nonneg _) low
  have productEnd : (factor.toNat : Int) * value ≤ 0x7FFFFFFF * 2 ^ 32 := by
    have bound : (factor.toNat : Int) ≤ 0x7FFFFFFF := by omega
    exact Int.mul_le_mul bound (Int.le_of_lt high) low (by decide)
  have product : int64 (factor.toNat * value) = some (factor.toNat * value) := by
    apply int64_some _ productStart
    omega
  have sum : int64 (factor.toNat * value + addend.toNat) =
      some (factor.toNat * value + addend.toNat) := by
    apply int64_some <;> omega
  refine ⟨_, ?_, tmod_modulus (factor.toNat * value + addend.toNat) (by omega)⟩
  simp only [mulAddMod, product, sum, bind_eq_bind, bind_some]

def ChlSums.Bounded (sums : ChlSums) (index : Nat) : Prop :=
  0 ≤ sums.nLow ∧ sums.nLow < 0x7FFFFFFF ∧ 0 ≤ sums.nHigh ∧ sums.nHigh ≤ index * 0x7FFFFFFF

theorem chlRound_bounded {md5Parts : Fin 4 → UInt32} (first second : UInt32) {sums : ChlSums}
    {index : Nat} (masked : ∀ part, (md5Parts part).toNat ≤ 0x7FFFFFFF) (few : index ≤ 64)
    (bounded : sums.Bounded index) :
    ∃ next, chlRound md5Parts first second sums = some next ∧ next.Bounded (index + 2) := by
  obtain ⟨lowStart, lowEnd, highStart, highEnd⟩ := bounded
  have firstFits := first.toNat_lt
  have secondFits := second.toNat_lt
  have scaled := int64_some (0x0E79A9C1 * first.toNat) (by omega) (by omega)
  obtain ⟨scaledStart, scaledEnd⟩ := tmod_modulus (0x0E79A9C1 * first.toNat) (by omega)
  have shifted := int64_some (Int.tmod (0x0E79A9C1 * first.toNat) chlModulus + sums.nLow)
    (by omega) (by omega)
  obtain ⟨temp, tempDone, tempStart, tempEnd⟩ := mulAddMod_some
    (Int.tmod (0x0E79A9C1 * first.toNat) chlModulus + sums.nLow) (masked 0) (masked 1)
    (by omega) (by omega)
  have nHigh := int64_some (sums.nHigh + temp) (by omega) (by omega)
  have sum := int64_some (second.toNat + temp) (by omega) (by omega)
  obtain ⟨sumStart, sumEnd⟩ := tmod_modulus (second.toNat + temp) (by omega)
  obtain ⟨nLow, lowDone, nextLowStart, nextLowEnd⟩ := mulAddMod_some
    (Int.tmod (second.toNat + temp) chlModulus) (masked 2) (masked 3) (by omega) (by omega)
  have nextHigh := int64_some (sums.nHigh + temp + nLow) (by omega) (by omega)
  refine ⟨{ nHigh := sums.nHigh + temp + nLow, nLow }, ?_, nextLowStart, nextLowEnd, ?_, ?_⟩
  · simp only [chlRound, scaled, shifted, tempDone, nHigh, sum, lowDone, nextHigh,
      bind_eq_bind, bind_some]
  · change 0 ≤ sums.nHigh + temp + nLow
    omega
  · change sums.nHigh + temp + nLow ≤ (index + 2 : Nat) * 0x7FFFFFFF
    omega

/-! ### The string -/

theorem chlStringPart_some {buf : Block UInt8} {bytes : List UInt8} (index : Nat)
    (held : bytes.map some <+: buf) (inside : 4 * index + 4 ≤ bytes.length) :
    ∃ part, chlStringPart buf index = some part := by
  have split : (bytes.take (4 * index)).map some ++ ((bytes.drop (4 * index)).take 4).map some
      <+: buf := by
    rw [← map_append, ← take_add]
    apply List.IsPrefix.trans _ held
    rw [map_take]
    exact take_prefix _ _
  have loaded := Block.load_front _ _ split
  rw [length_map, length_take, Nat.min_eq_left (by omega), length_map,
    length_take, List.length_drop, Nat.min_eq_left (by omega)] at loaded
  simp only [chlStringPart, loaded, mapM_stored, bind_eq_bind, bind_some]
  exact ⟨_, rfl⟩

theorem chlLoop_bounded {turn : UInt32 → UInt32 → ChlSums → Option ChlSums}
    {buf : Block UInt8} {bytes : List UInt8} (held : bytes.map some <+: buf)
    (preserved : ∀ first second sums index, index ≤ 64 → sums.Bounded index →
      ∃ next, turn first second sums = some next ∧ next.Bounded (index + 2))
    (turns : Nat) {index : Nat} {sums : ChlSums} (whole : 4 * (index + 2 * turns) ≤ bytes.length)
    (few : index + 2 * turns ≤ 64) (bounded : sums.Bounded index) :
    ∃ final, chlLoop turn buf turns index sums = some final ∧
      final.Bounded (index + 2 * turns) := by
  induction turns generalizing index sums with
  | zero => exact ⟨sums, rfl, bounded⟩
  | succ turns ih =>
    obtain ⟨first, firstRead⟩ := chlStringPart_some index held (by omega)
    obtain ⟨second, secondRead⟩ := chlStringPart_some (index + 1) held (by omega)
    obtain ⟨next, stepped, nextBounded⟩ :=
      preserved first second sums index (by omega) bounded
    have later : index + 2 * (turns + 1) = index + 2 + 2 * turns := by omega
    rw [later] at whole few
    obtain ⟨final, done, finalBounded⟩ := ih whole few nextBounded
    rw [later]
    refine ⟨final, ?_, finalBounded⟩
    simp only [chlLoop, firstRead, secondRead, stepped, done, bind_eq_bind,
      bind_some]

theorem padChl_some {buf : Block UInt8} {text : List UInt8} (held : text.map some <+: buf)
    (sized : buf.length = bufsize) (short : text.length ≤ 248) :
    ∃ (padded : Block UInt8) (bytes : List UInt8),
      padChl buf text.length = some (padded, bytes.length) ∧
      bytes.map some <+: padded ∧ bytes.length % 8 = 0 ∧ bytes.length ≤ 248 := by
  rw [padChl]
  have whole : bufsize = 256 := rfl
  have zeroes : (ascii "00000000").length = 8 := rfl
  by_cases aligned : text.length % 8 = 0
  · rw [if_neg (not_not_intro aligned)]
    exact ⟨buf, text, rfl, held, aligned, short⟩
  · let zeros := (ascii "00000000").take (8 - text.length % 8)
    have count : zeros.length = 8 - text.length % 8 := by
      rw [length_take]
      omega
    have zerosFit : (text.map some).length + (zeros.map some).length ≤ buf.length := by
      rw [length_map, length_map]
      omega
    obtain ⟨filled, filledDone, filledSize, filledHeld⟩ := Block.store_after held zerosFit
    rw [← map_append] at filledHeld
    have nulFits : ((text ++ zeros).map some).length + [some (0 : UInt8)].length ≤ filled.length := by
      rw [length_map, length_append, length_singleton]
      omega
    obtain ⟨padded, paddedDone, _, paddedHeld⟩ := Block.store_after filledHeld nulFits
    rw [length_map] at filledDone
    rw [length_map, length_append, count] at paddedDone
    refine ⟨padded, text ++ zeros, ?_, ?_, ?_, ?_⟩
    · rw [if_pos aligned]
      simp only [zeros] at filledDone
      simp only [filledDone, paddedDone, length_append, count, bind_eq_bind,
        bind_some]
    · exact (prefix_append _ _).trans paddedHeld
    · rw [length_append, count]
      omega
    · rw [length_append, count]
      omega

theorem padChl_none {buf : Block UInt8} {len : Nat} (sized : buf.length = bufsize)
    (long : 249 ≤ len) (cut : len ≤ 250) : padChl buf len = none := by
  have whole : bufsize = 256 := rfl
  rw [padChl, if_pos (by omega)]
  cases filled : buf.store len (((ascii "00000000").take (8 - len % 8)).map some) with
  | none => simp only [filled, bind_eq_bind, bind_none]
  | some stored =>
    have full : ¬ len + (8 - len % 8) + [some (0 : UInt8)].length ≤ stored.length := by
      rw [Block.store_length filled, length_singleton]
      omega
    have outside : stored.store (len + (8 - len % 8)) [some 0] = none := if_neg full
    simp only [filled, outside, bind_eq_bind, bind_some, bind_none]

theorem chlString_padded (input : List UInt8) :
    ∃ buf : Block UInt8, buf.length = bufsize ∧
      ((cString input ++ productID).take 250).map some <+: buf ∧
      chlString (cString input) = padChl buf ((cString input ++ productID).take 250).length := by
  let text := (cString input ++ productID).take 250
  have clean : 0 ∉ text := by
    intro nul
    rcases mem_append.mp (mem_of_mem_take nul) with typed | fixed
    · have kept := mem_takeWhile_imp typed
      exact absurd rfl (bne_iff_ne.mp kept)
    · exact absurd fixed (by decide)
  have room : ([] : Block UInt8).length + ((text ++ [0]).map some).length ≤
      (List.replicate bufsize (none : Option UInt8)).length := by
    have cut : text.length ≤ 250 := length_take_le _ _
    rw [length_map, length_append, length_replicate]
    change 0 + (text.length + 1) ≤ 256
    omega
  obtain ⟨buf, stored, sized, held⟩ := Block.store_after nil_prefix room
  rw [nil_append, map_append] at held
  have read := blockString_of_prefix held
  rw [cString_clean clean] at read
  refine ⟨buf, sized.trans length_replicate, (prefix_append _ _).trans held, ?_⟩
  rw [chlString]
  change (Block.store (List.replicate bufsize none) 0 ((text ++ [0]).map some)).bind _ = _
  rw [length_nil] at stored
  simp only [stored, read, bind_eq_bind, bind_some, text]

/-! ### The answer -/

theorem hexChar_some (nibble : UInt8) : ∃ digit, hexChar nibble = some digit ∧ digit ∈ hexChars := by
  have count : hexChars.length = 16 := rfl
  have within : (nibble &&& 0xF).toNat < hexChars.length := by
    rw [count, UInt8.toNat_and]
    exact Nat.lt_of_le_of_lt Nat.and_le_right (by decide)
  exact ⟨hexChars[(nibble &&& 0xF).toNat], getElem?_eq_getElem within,
    getElem_mem within⟩

theorem writeHex_digits (bytes : List UInt8) (front back : Block UInt8)
    (room : 2 * bytes.length ≤ back.length) :
    ∃ digits : List UInt8, digits.length = 2 * bytes.length ∧ (∀ digit ∈ digits, digit ∈ hexChars) ∧
      writeHex (front ++ back) front.length bytes =
        some (front ++ digits.map some ++ back.drop (2 * bytes.length)) := by
  induction bytes generalizing front back with
  | nil =>
    refine ⟨[], rfl, fun _ member => absurd member not_mem_nil, ?_⟩
    rw [writeHex, map_nil, append_nil]
    rfl
  | cons byte rest ih =>
    rw [length_cons] at room
    obtain ⟨first, second, back, rfl⟩ : ∃ first second more, back = first :: second :: more := by
      match back, room with
      | first :: second :: more, _ => exact ⟨first, second, more, rfl⟩
    obtain ⟨high, highRead, highDigit⟩ := hexChar_some (byte >>> 4)
    obtain ⟨low, lowRead, lowDigit⟩ := hexChar_some byte
    obtain ⟨digits, sized, allDigits, written⟩ :=
      ih (front ++ [some high] ++ [some low]) back (by
        rw [length_cons, length_cons] at room
        omega)
    have highStored := Block.store_cell front (second :: back) first (some high)
    have lowStored := Block.store_cell (front ++ [some high]) back second (some low)
    rw [← append_cons, append_cons _ (some low), length_append,
      length_singleton] at lowStored
    rw [length_append, length_append, length_singleton,
      length_singleton] at written
    refine ⟨high :: low :: digits, ?_, ?_, ?_⟩
    · rw [length_cons, length_cons, length_cons, sized]
      omega
    · intro digit member
      rcases mem_cons.mp member with rfl | later
      · exact highDigit
      · rcases mem_cons.mp later with rfl | later
        · exact lowDigit
        · exact allDigits digit later
    · have twice : 2 * (byte :: rest).length = 2 * rest.length + 1 + 1 := by
        rw [length_cons]
        omega
      rw [twice, drop_succ_cons, drop_succ_cons, writeHex]
      simp only [highRead, lowRead, highStored, lowStored, bind_eq_bind,
        bind_some]
      change writeHex _ (front.length + 1 + 1) rest = _
      rw [written, map_cons, map_cons, append_assoc front, append_assoc front]
      rfl

theorem newHash_length (hash : Vector UInt8 16) (nHigh nLow : Int) :
    (newHash hash nHigh nLow).length = 16 := by
  simp only [newHash, flatMap_cons, flatMap_nil, length_append, little_length,
    length_nil]

theorem answer_written (bytes : List UInt8) {output : Block UInt8} (sized : bytes.length = 16)
    (room : 33 ≤ output.length) :
    ∃ digits : List UInt8, digits.length = 32 ∧ (∀ digit ∈ digits, digit ∈ hexChars) ∧
      (writeHex output 0 bytes).bind (fun output => output.store 32 [some 0]) =
        some ((digits ++ [0]).map some ++ output.drop 33) := by
  obtain ⟨digits, count, allDigits, written⟩ := writeHex_digits bytes [] output (by omega)
  rw [sized] at count written
  rw [nil_append, nil_append, length_nil] at written
  refine ⟨digits, count, allDigits, ?_⟩
  obtain ⟨old, behind⟩ : ∃ old, output.drop 32 = old :: output.drop 33 :=
    ⟨output[32], drop_eq_getElem_cons (by omega)⟩
  have closed := Block.store_cell (digits.map some) (output.drop 33) old (some 0)
  rw [length_map, count, ← behind] at closed
  rw [written, bind_some, closed, map_append, append_assoc]
  rfl

theorem hashPart_masked (part : UInt32) : (part &&& 0x7FFFFFFF).toNat ≤ 0x7FFFFFFF := by
  rw [UInt32.toNat_and]
  exact Nat.and_le_right

theorem msnHandleChl_some (md5 : Md5) {input : List UInt8} {output : Block UInt8}
    (room : 33 ≤ output.length) (fits : (cString input).length + productID.length < 249) :
    ∃ digits : List UInt8, digits.length = 32 ∧ (∀ digit ∈ digits, digit ∈ hexChars) ∧
      msnHandleChl md5 input output = some ((digits ++ [0]).map some ++ output.drop 33) := by
  obtain ⟨buf, sized, held, stored⟩ := chlString_padded input
  have whole : ((cString input ++ productID).take 250).length ≤ 248 := by
    rw [length_take, length_append]
    omega
  obtain ⟨padded, bytes, done, paddedHeld, aligned, short⟩ := padChl_some held sized whole
  rw [done] at stored
  let md5Parts := fun index => hashPart (md5 (cString input ++ productKey)) index &&& 0x7FFFFFFF
  have masked : ∀ part, (md5Parts part).toNat ≤ 0x7FFFFFFF := fun part => hashPart_masked _
  have started : ChlSums.Bounded { nHigh := 0, nLow := 0 } 0 :=
    ⟨by decide, by decide, by decide, by decide⟩
  obtain ⟨sums, looped, lowStart, lowEnd, highStart, highEnd⟩ :=
    chlLoop_bounded paddedHeld
      (fun first second sums index few bounded => chlRound_bounded first second masked few bounded)
      ((bytes.length / 4 + 1) / 2) (by omega) (by omega) started
  have firstMasked := masked 1
  have lastMasked := masked 3
  have nLow := int64_some (sums.nLow + (md5Parts 1).toNat) (by omega) (by omega)
  have nHigh := int64_some (sums.nHigh + (md5Parts 3).toNat) (by omega) (by omega)
  obtain ⟨digits, count, allDigits, written⟩ := answer_written
    (newHash (md5 (cString input ++ productKey))
      (Int.tmod (sums.nHigh + (md5Parts 3).toNat) chlModulus)
      (Int.tmod (sums.nLow + (md5Parts 1).toNat) chlModulus)) (newHash_length _ _ _) room
  refine ⟨digits, count, allDigits, ?_⟩
  rw [← written, msnHandleChl]
  simp only [stored, bind_eq_bind, bind_some]
  rw [looped]
  simp only [bind_some]
  rw [nLow, nHigh]
  rfl

theorem msnHandleChl_none (md5 : Md5) {input : List UInt8} (output : Block UInt8)
    (long : 249 ≤ (cString input).length + productID.length) :
    msnHandleChl md5 input output = none := by
  obtain ⟨buf, sized, _, stored⟩ := chlString_padded input
  have count : ((cString input ++ productID).take 250).length =
      min 250 ((cString input).length + productID.length) := by
    rw [length_take, length_append]
  rw [padChl_none sized (by omega) (by omega)] at stored
  rw [msnHandleChl]
  simp only [stored, bind_eq_bind, bind_none]

/-- The challenge is answered exactly when it and the product id fit into 248 bytes. -/
theorem msnHandleChl_answers_iff (md5 : Md5) (input : List UInt8) (output : Block UInt8)
    (room : 33 ≤ output.length) :
    (∃ digits : List UInt8, digits.length = 32 ∧ (∀ digit ∈ digits, digit ∈ hexChars) ∧
      msnHandleChl md5 input output = some ((digits ++ [0]).map some ++ output.drop 33)) ↔
      (cString input).length + productID.length < 249 := by
  constructor
  · rintro ⟨digits, _, _, answered⟩
    by_contra long
    rw [msnHandleChl_none md5 output (by omega)] at answered
    cases answered
  · intro fits
    exact msnHandleChl_some md5 room fits

theorem msnHandleChl_answered :
    ∃ digits : List UInt8, digits.length = 32 ∧ (∀ digit ∈ digits, digit ∈ hexChars) ∧
      msnHandleChl (fun _ => #v[110, 222, 168, 69, 228, 60, 131, 50, 61, 115, 197, 60, 252, 115,
          78, 86])
        (ascii "15570131571988941333") (List.replicate 33 none) =
          some ((digits ++ [0]).map some ++ (List.replicate 33 none).drop 33) :=
  (msnHandleChl_answers_iff _ _ _ (by decide)).mpr (by decide)

/-- With 233 letters the zeros end at the last byte of the buffer. -/
theorem msnHandleChl_longChallenge :
    ¬ ∃ digits : List UInt8, digits.length = 32 ∧ (∀ digit ∈ digits, digit ∈ hexChars) ∧
      msnHandleChl (fun _ => #v[121, 154, 83, 41, 68, 37, 218, 227, 107, 48, 64, 209, 115, 157,
          213, 253])
        (List.replicate 233 97) (List.replicate 33 none) =
          some ((digits ++ [0]).map some ++ (List.replicate 33 none).drop 33) := by
  rintro ⟨digits, _, _, answered⟩
  have clean : (0 : UInt8) ∉ List.replicate 233 97 := fun nul =>
    absurd (eq_of_mem_replicate nul) (by decide)
  have long : 249 ≤ (cString (List.replicate 233 97)).length + productID.length := by
    rw [cString_clean clean, length_replicate]
    decide
  rw [msnHandleChl_none _ _ long] at answered
  cases answered

end Purple.Msn
