/-
DES of des.c: the key schedule and `des_ecb_crypt`.

The sixteen pairs of words of a key schedule are a list of pairs.  A block that has not
eight bytes is `none`.
-/

import Purple.Ciphers.DesTables
import Purple.Feistel

namespace Purple.Ciphers.Des

open List

abbrev Bytes := List UInt8

abbrev Words := UInt32 × UInt32

/-- `DO_PERMUTATION`: the new `a` and `b`. -/
def doPermutation (a b offset mask : UInt32) : Words :=
  let temp := ((a >>> offset) ^^^ b) &&& mask
  (a ^^^ (temp <<< offset), b ^^^ temp)

/-- The permutation with the words the other way round. -/
def doPermutationSwapped (a b offset mask : UInt32) : Words :=
  (doPermutation b a offset mask).swap

def initialPermutation (left right : UInt32) : Words :=
  let words := doPermutation left right 4 0x0f0f0f0f
  let words := doPermutation words.1 words.2 16 0x0000ffff
  let words := doPermutationSwapped words.1 words.2 2 0x33333333
  let words := doPermutationSwapped words.1 words.2 8 0x00ff00ff
  doPermutation words.1 words.2 1 0x55555555

def finalPermutation (left right : UInt32) : Words :=
  let words := doPermutation left right 1 0x55555555
  let words := doPermutationSwapped words.1 words.2 8 0x00ff00ff
  let words := doPermutationSwapped words.1 words.2 2 0x33333333
  let words := doPermutation words.1 words.2 16 0x0000ffff
  doPermutation words.1 words.2 4 0x0f0f0f0f

def sboxAt (sbox : List UInt32) (work shift : UInt32) : UInt32 :=
  sbox.getD ((work >>> shift) &&& 0x3f).toNat 0

/-- What `DES_ROUND` mixes into `to`. -/
def roundFunction (subkey : Words) (from_ : UInt32) : UInt32 :=
  let work := ((from_ <<< 1) ||| (from_ >>> 31)) ^^^ subkey.1
  let even := sboxAt sbox8 work 0 ^^^ sboxAt sbox6 work 8 ^^^ sboxAt sbox4 work 16 ^^^
    sboxAt sbox2 work 24
  let work := ((from_ >>> 3) ||| (from_ <<< 29)) ^^^ subkey.2
  even ^^^ sboxAt sbox7 work 0 ^^^ sboxAt sbox5 work 8 ^^^ sboxAt sbox3 work 16 ^^^
    sboxAt sbox1 work 24

def desRound (from_ to_ : UInt32) (subkey : Words) : UInt32 := to_ ^^^ roundFunction subkey from_

def joinBytes (first second third fourth : UInt8) : UInt32 :=
  (first.toUInt32 <<< 24) ||| (second.toUInt32 <<< 16) ||| (third.toUInt32 <<< 8) ||| fourth.toUInt32

/-- `READ_64BIT_DATA` -/
def read64bitData : Bytes → Option Words
  | [d0, d1, d2, d3, d4, d5, d6, d7] => some (joinBytes d0 d1 d2 d3, joinBytes d4 d5 d6 d7)
  | _ => none

def splitBytes (word : UInt32) : Bytes :=
  [((word >>> 24) &&& 0xff).toUInt8, ((word >>> 16) &&& 0xff).toUInt8,
    ((word >>> 8) &&& 0xff).toUInt8, (word &&& 0xff).toUInt8]

/-- `WRITE_64BIT_DATA` -/
def write64bitData (left right : UInt32) : Bytes := splitBytes left ++ splitBytes right

def swapAt (table : List UInt32) (word shift by_ : UInt32) : UInt32 :=
  table.getD ((word >>> shift) &&& 0xf).toNat 0 <<< by_

def keepLow28 (word : UInt32) : UInt32 := word &&& 0x0fffffff

def leftStart (left : UInt32) : UInt32 :=
  keepLow28 (swapAt leftkeySwap left 0 3 ||| swapAt leftkeySwap left 8 2 |||
    swapAt leftkeySwap left 16 1 |||
    swapAt leftkeySwap left 24 0 ||| swapAt leftkeySwap left 5 7 ||| swapAt leftkeySwap left 13 6 |||
    swapAt leftkeySwap left 21 5 ||| swapAt leftkeySwap left 29 4)

def rightStart (right : UInt32) : UInt32 :=
  keepLow28 (swapAt rightkeySwap right 1 3 ||| swapAt rightkeySwap right 9 2 |||
    swapAt rightkeySwap right 17 1 ||| swapAt rightkeySwap right 25 0 |||
    swapAt rightkeySwap right 4 7 ||| swapAt rightkeySwap right 12 6 |||
    swapAt rightkeySwap right 20 5 ||| swapAt rightkeySwap right 28 4)

def rotate28 (word count : UInt32) : UInt32 :=
  keepLow28 ((word <<< count) ||| (word >>> (28 - count)))

def takeUp (word shift mask : UInt32) : UInt32 := (word <<< shift) &&& mask

def takeDown (word shift mask : UInt32) : UInt32 := (word >>> shift) &&& mask

def firstSubkey (left right : UInt32) : UInt32 :=
  takeUp left 4 0x24000000 ||| takeUp left 28 0x10000000 |||
    takeUp left 14 0x08000000 ||| takeUp left 18 0x02080000 |||
    takeUp left 6 0x01000000 ||| takeUp left 9 0x00200000 |||
    takeDown left 1 0x00100000 ||| takeUp left 10 0x00040000 |||
    takeUp left 2 0x00020000 ||| takeDown left 10 0x00010000 |||
    takeDown right 13 0x00002000 ||| takeDown right 4 0x00001000 |||
    takeUp right 6 0x00000800 ||| takeDown right 1 0x00000400 |||
    takeDown right 14 0x00000200 ||| takeDown right 0 0x00000100 |||
    takeDown right 5 0x00000020 ||| takeDown right 10 0x00000010 |||
    takeDown right 3 0x00000008 ||| takeDown right 18 0x00000004 |||
    takeDown right 26 0x00000002 ||| takeDown right 24 0x00000001

def secondSubkey (left right : UInt32) : UInt32 :=
  takeUp left 15 0x20000000 ||| takeUp left 17 0x10000000 |||
    takeUp left 10 0x08000000 ||| takeUp left 22 0x04000000 |||
    takeDown left 2 0x02000000 ||| takeUp left 1 0x01000000 |||
    takeUp left 16 0x00200000 ||| takeUp left 11 0x00100000 |||
    takeUp left 3 0x00080000 ||| takeDown left 6 0x00040000 |||
    takeUp left 15 0x00020000 ||| takeDown left 4 0x00010000 |||
    takeDown right 2 0x00002000 ||| takeUp right 8 0x00001000 |||
    takeDown right 14 0x00000808 ||| takeDown right 9 0x00000400 |||
    takeDown right 0 0x00000200 ||| takeUp right 7 0x00000100 |||
    takeDown right 7 0x00000020 ||| takeDown right 3 0x00000011 |||
    takeUp right 2 0x00000004 ||| takeDown right 21 0x00000002

def subkeyPair (left right : UInt32) : Words := (firstSubkey left right, secondSubkey left right)

def scheduleRounds (left right : UInt32) : List UInt32 → List Words
  | [] => []
  | count :: counts =>
    let left := rotate28 left count
    let right := rotate28 right count
    subkeyPair left right :: scheduleRounds left right counts

def desKeySchedule (rawkey : Bytes) : Option (List Words) :=
  (read64bitData rawkey).map fun words =>
    let words := doPermutationSwapped words.1 words.2 4 0x0f0f0f0f
    let words := doPermutationSwapped words.1 words.2 0 0x10101010
    scheduleRounds (leftStart words.1) (rightStart words.2) encryptRotateTab

/-- The subkeys for decryption are those for encryption in the other order. -/
structure DesCtx where
  encryptSubkeys : List Words
  decryptSubkeys : List Words
  even : 2 ∣ encryptSubkeys.length
  reversed : decryptSubkeys = encryptSubkeys.reverse

theorem scheduleRounds_length (left right : UInt32) (counts : List UInt32) :
    (scheduleRounds left right counts).length = counts.length := by
  induction counts generalizing left right with
  | nil => rfl
  | cons count counts ih => rw [scheduleRounds, length_cons, ih, length_cons]

theorem desKeySchedule_length {rawkey : Bytes} {subkeys : List Words}
    (scheduled : desKeySchedule rawkey = some subkeys) : subkeys.length = 16 := by
  obtain ⟨words, _, rfl⟩ := Option.map_eq_some_iff.mp scheduled
  exact scheduleRounds_length _ _ encryptRotateTab

def desSetKey (rawkey : Bytes) : Option DesCtx :=
  match scheduled : desKeySchedule rawkey with
  | none => none
  | some subkeys =>
    some
      { encryptSubkeys := subkeys
        decryptSubkeys := subkeys.reverse
        even := by
          rw [desKeySchedule_length scheduled]
          decide
        reversed := rfl }

def desRounds (left right : UInt32) : List Words → Words
  | first :: second :: keys =>
    let left := desRound right left first
    let right := desRound left right second
    desRounds left right keys
  | _ => (left, right)

def desEcbCrypt (ctx : DesCtx) (from_ : Bytes) (mode : Bool) : Option Bytes :=
  let keys := if mode then ctx.decryptSubkeys else ctx.encryptSubkeys
  (read64bitData from_).map fun words =>
    let words := initialPermutation words.1 words.2
    let words := desRounds words.1 words.2 keys
    let words := finalPermutation words.2 words.1
    write64bitData words.1 words.2

theorem or_low (high low : Nat) {width : Nat} (small : low < 2 ^ width) :
    high * 2 ^ width ||| low = high * 2 ^ width + low := by
  rw [← Nat.shiftLeft_eq, Nat.shiftLeft_add_eq_or_of_lt small]

theorem shifted_toNat (byte : UInt8) {shift : UInt32} (small : shift.toNat ≤ 24) :
    (byte.toUInt32 <<< shift).toNat = byte.toNat * 2 ^ shift.toNat := by
  have bound := byte.toNat_lt
  have fits : byte.toNat * 2 ^ shift.toNat < 2 ^ 32 := by
    calc byte.toNat * 2 ^ shift.toNat < 2 ^ 8 * 2 ^ shift.toNat :=
          Nat.mul_lt_mul_of_pos_right bound (Nat.two_pow_pos _)
      _ ≤ 2 ^ 8 * 2 ^ 24 := Nat.mul_le_mul_left _ (Nat.pow_le_pow_right (by decide) small)
  rw [UInt32.toNat_shiftLeft, UInt8.toNat_toUInt32, Nat.shiftLeft_eq,
    Nat.mod_eq_of_lt (Nat.lt_of_le_of_lt small (by decide)), Nat.mod_eq_of_lt fits]

theorem joinBytes_toNat (first second third fourth : UInt8) :
    (joinBytes first second third fourth).toNat =
      first.toNat * 16777216 + second.toNat * 65536 + third.toNat * 256 + fourth.toNat := by
  have boundSecond := second.toNat_lt
  have boundThird := third.toNat_lt
  have boundFourth := fourth.toNat_lt
  have three : (first.toUInt32 <<< 24).toNat ||| (second.toUInt32 <<< 16).toNat =
      (first.toNat * 256 + second.toNat) * 2 ^ 16 := by
    rw [shifted_toNat first (by decide), shifted_toNat second (by decide)]
    change first.toNat * 2 ^ 24 ||| second.toNat * 2 ^ 16 = _
    rw [or_low _ _ (by omega)]
    omega
  have two : (first.toNat * 256 + second.toNat) * 2 ^ 16 ||| (third.toUInt32 <<< 8).toNat =
      ((first.toNat * 256 + second.toNat) * 256 + third.toNat) * 2 ^ 8 := by
    rw [shifted_toNat third (by decide)]
    change _ ||| third.toNat * 2 ^ 8 = _
    rw [or_low _ _ (by omega)]
    omega
  rw [joinBytes, UInt32.toNat_or, UInt32.toNat_or, UInt32.toNat_or, three, two,
    UInt8.toNat_toUInt32, or_low _ _ (by omega)]
  omega

theorem byteAt_toNat (word shift : UInt32) :
    ((word >>> shift) &&& 0xff).toUInt8.toNat = word.toNat / 2 ^ (shift.toNat % 32) % 256 := by
  rw [UInt32.toNat_toUInt8, UInt32.toNat_and, UInt32.toNat_shiftRight, Nat.shiftRight_eq_div_pow]
  change (_ &&& (2 ^ 8 - 1)) % 2 ^ 8 = _
  rw [Nat.and_two_pow_sub_one_eq_mod]
  exact Nat.mod_mod _ _

theorem splitBytes_eq (word : UInt32) :
    splitBytes word = [((word >>> 24) &&& 0xff).toUInt8, ((word >>> 16) &&& 0xff).toUInt8,
      ((word >>> 8) &&& 0xff).toUInt8, ((word >>> 0) &&& 0xff).toUInt8] := by
  rw [splitBytes, UInt32.shiftRight_zero]

theorem splitBytes_joinBytes (first second third fourth : UInt8) :
    splitBytes (joinBytes first second third fourth) = [first, second, third, fourth] := by
  have value := joinBytes_toNat first second third fourth
  have boundFirst := first.toNat_lt
  have boundSecond := second.toNat_lt
  have boundThird := third.toNat_lt
  have boundFourth := fourth.toNat_lt
  rw [splitBytes_eq]
  congr 1
  · apply UInt8.toNat.inj
    rw [byteAt_toNat, value]
    change _ / 16777216 % 256 = _
    omega
  congr 1
  · apply UInt8.toNat.inj
    rw [byteAt_toNat, value]
    change _ / 65536 % 256 = _
    omega
  congr 1
  · apply UInt8.toNat.inj
    rw [byteAt_toNat, value]
    change _ / 256 % 256 = _
    omega
  congr 1
  · apply UInt8.toNat.inj
    rw [byteAt_toNat, value]
    change _ / 1 % 256 = _
    omega

theorem joinBytes_splitBytes (word : UInt32) :
    joinBytes ((word >>> 24) &&& 0xff).toUInt8 ((word >>> 16) &&& 0xff).toUInt8
      ((word >>> 8) &&& 0xff).toUInt8 ((word >>> 0) &&& 0xff).toUInt8 = word := by
  apply UInt32.toNat.inj
  have bound := word.toNat_lt
  rw [joinBytes_toNat, byteAt_toNat, byteAt_toNat, byteAt_toNat, byteAt_toNat]
  change word.toNat / 16777216 % 256 * 16777216 + word.toNat / 65536 % 256 * 65536 +
    word.toNat / 256 % 256 * 256 + word.toNat / 1 % 256 = word.toNat
  omega

theorem read64bitData_write (left right : UInt32) :
    read64bitData (write64bitData left right) = some (left, right) := by
  rw [write64bitData, splitBytes_eq, splitBytes_eq]
  change some (joinBytes _ _ _ _, joinBytes _ _ _ _) = _
  rw [joinBytes_splitBytes, joinBytes_splitBytes]

theorem write64bitData_read {block : Bytes} {words : Words} (read : read64bitData block = some words) :
    write64bitData words.1 words.2 = block := by
  unfold read64bitData at read
  split at read
  · cases read
    rw [write64bitData, splitBytes_joinBytes, splitBytes_joinBytes]
    rfl
  · cases read

theorem read64bitData_some {block : Bytes} (eight : block.length = 8) :
    ∃ words, read64bitData block = some words := by
  match block, eight with
  | [_, _, _, _, _, _, _, _], _ => exact ⟨_, rfl⟩

theorem masked_shift {offset mask : UInt32} (low : (mask <<< offset) >>> offset = mask)
    (word : UInt32) : ((word &&& mask) <<< offset) >>> offset = word &&& mask := by
  rw [← UInt32.toBitVec_inj] at low ⊢
  simp only [UInt32.toBitVec_and, UInt32.toBitVec_shiftLeft, UInt32.toBitVec_shiftRight,
    BitVec.shiftLeft_eq', BitVec.ushiftRight_eq'] at low ⊢
  apply BitVec.eq_of_getLsbD_eq
  intro i inside
  have bit := congrArg (BitVec.getLsbD · i) low
  simp only [BitVec.getLsbD_ushiftRight, BitVec.getLsbD_shiftLeft] at bit
  simp only [BitVec.getLsbD_ushiftRight, BitVec.getLsbD_shiftLeft, BitVec.getLsbD_and]
  grind

theorem xor_cancel (left right : UInt32) : left ^^^ right ^^^ right = left := by
  rw [UInt32.xor_assoc, UInt32.xor_self, UInt32.xor_zero]

theorem doPermutation_twice {offset mask : UInt32} (low : (mask <<< offset) >>> offset = mask)
    (a b : UInt32) :
    doPermutation (doPermutation a b offset mask).1 (doPermutation a b offset mask).2 offset mask =
      (a, b) := by
  have temp : (((a ^^^ ((((a >>> offset) ^^^ b) &&& mask) <<< offset)) >>> offset) ^^^
      (b ^^^ (((a >>> offset) ^^^ b) &&& mask))) &&& mask = ((a >>> offset) ^^^ b) &&& mask := by
    rw [UInt32.shiftRight_xor, masked_shift low]
    have regroup (x y z : UInt32) : (x ^^^ z) ^^^ (y ^^^ z) = x ^^^ y := by
      rw [UInt32.xor_comm y z, ← UInt32.xor_assoc, xor_cancel]
    rw [regroup]
  simp only [doPermutation]
  rw [temp, xor_cancel, xor_cancel]

theorem doPermutationSwapped_twice {offset mask : UInt32}
    (low : (mask <<< offset) >>> offset = mask) (a b : UInt32) :
    doPermutationSwapped (doPermutationSwapped a b offset mask).1
      (doPermutationSwapped a b offset mask).2 offset mask = (a, b) := by
  change (doPermutation (doPermutation b a offset mask).1 (doPermutation b a offset mask).2 offset
    mask).swap = _
  rw [doPermutation_twice low]
  rfl

theorem initialPermutation_final (left right : UInt32) :
    initialPermutation (finalPermutation left right).1 (finalPermutation left right).2 =
      (left, right) := by
  simp only [initialPermutation, finalPermutation]
  rw [doPermutation_twice (by decide), doPermutation_twice (by decide),
    doPermutationSwapped_twice (by decide), doPermutationSwapped_twice (by decide),
    doPermutation_twice (by decide)]

theorem finalPermutation_initial (left right : UInt32) :
    finalPermutation (initialPermutation left right).1 (initialPermutation left right).2 =
      (left, right) := by
  simp only [initialPermutation, finalPermutation]
  rw [doPermutation_twice (by decide), doPermutationSwapped_twice (by decide),
    doPermutationSwapped_twice (by decide), doPermutation_twice (by decide),
    doPermutation_twice (by decide)]

theorem desRounds_eq {keys : List Words} (even : 2 ∣ keys.length) (left right : UInt32) :
    desRounds left right keys = Feistel.rounds roundFunction keys (left, right) := by
  match keys with
  | [] => rfl
  | [_] =>
    rw [length_singleton] at even
    omega
  | first :: second :: keys =>
    have evenRest : 2 ∣ keys.length := by
      rw [length_cons, length_cons] at even
      omega
    rw [desRounds]
    exact desRounds_eq evenRest _ _

theorem desEcbCrypt_eq (ctx : DesCtx) (mode : Bool) {block : Bytes} {words : Words}
    (read : read64bitData block = some words) :
    desEcbCrypt ctx block mode =
      let keys := if mode then ctx.encryptSubkeys.reverse else ctx.encryptSubkeys
      let halves := Feistel.rounds roundFunction keys (initialPermutation words.1 words.2)
      let final := finalPermutation halves.2 halves.1
      some (write64bitData final.1 final.2) := by
  have even : 2 ∣ (if mode then ctx.decryptSubkeys else ctx.encryptSubkeys).length := by
    rw [ctx.reversed]
    cases mode with
    | false => exact ctx.even
    | true =>
      rw [if_pos rfl, length_reverse]
      exact ctx.even
  rw [desEcbCrypt, read, Option.map_some]
  dsimp only
  rw [desRounds_eq even, ctx.reversed]

theorem desEcbCrypt_inverse (ctx : DesCtx) (mode : Bool) {block : Bytes} (eight : block.length = 8) :
    ∃ cipher, desEcbCrypt ctx block mode = some cipher ∧ cipher.length = 8 ∧
      desEcbCrypt ctx cipher (!mode) = some block := by
  obtain ⟨words, read⟩ := read64bitData_some eight
  refine ⟨_, desEcbCrypt_eq ctx mode read, rfl, ?_⟩
  rw [desEcbCrypt_eq ctx (!mode) (read64bitData_write _ _)]
  dsimp only
  rw [initialPermutation_final]
  have undone := Feistel.rounds_reverse (f := roundFunction) xor_cancel
    (if mode then ctx.encryptSubkeys.reverse else ctx.encryptSubkeys)
    (initialPermutation words.1 words.2)
  have back : (if (!mode) = true then ctx.encryptSubkeys.reverse else ctx.encryptSubkeys) =
      (if mode then ctx.encryptSubkeys.reverse else ctx.encryptSubkeys).reverse := by
    cases mode with
    | false => rfl
    | true => exact (reverse_reverse _).symm
  rw [back]
  have first := congrArg Prod.fst undone
  have second := congrArg Prod.snd undone
  change (Feistel.rounds roundFunction _ (_, _)).2 = _ at first
  change (Feistel.rounds roundFunction _ (_, _)).1 = _ at second
  rw [first, second, finalPermutation_initial, write64bitData_read read]

end Purple.Ciphers.Des
