/-
The DES and Triple-DES ciphers of des.c: ECB and CBC over data of any length.

Every mode is one loop over whole blocks and a separate last partial block; `none` is a
run in which `int offset` overflows.  The reported length adds the length of the partial
block once more to the length of the data, which is the padded length only when the
partial block is half a block.
-/

import Purple.Ciphers.Des

namespace Purple.Ciphers.Des

open List Option

def intMax : Nat := 2 ^ 31 - 1

def zeros (count : Nat) : Bytes := List.replicate count 0

def padded (rest : Bytes) : Bytes := rest ++ zeros (8 - rest.length)

/-- `buf[i] ^= data[i]` for the bytes there are. -/
def xorFront : Bytes → Bytes → Bytes
  | byte :: buf, mask :: data => (byte ^^^ mask) :: xorFront buf data
  | buf, _ => buf

/-- What a mode does with a whole block, which gives the next chaining value too, and with the
last partial one. -/
structure BlockMode where
  whole : Bytes → Bytes → Option (Bytes × Bytes)
  last : Bytes → Bytes → Option Bytes

/-- The bytes written and the last `offset`. -/
def cryptLoop (mode : BlockMode) (offset : Nat) (chain rest : Bytes) : Option (Bytes × Nat) :=
  if intMax < offset + 8 then none
  else if 8 ≤ rest.length then
    (mode.whole chain (rest.take 8)).bind fun step =>
      (cryptLoop mode (offset + 8) step.2 (rest.drop 8)).map fun done => (step.1 ++ done.1, done.2)
  else if rest = [] then some ([], offset)
  else (mode.last chain rest).map fun out => (out, offset)
termination_by rest.length
decreasing_by
  rw [List.length_drop]
  omega

/-- The bytes written and `*outlen`. -/
def crypt (mode : BlockMode) (chain data : Bytes) : Option (Bytes × Nat) :=
  (cryptLoop mode 0 chain data).map fun done =>
    (done.1, if done.2 < data.length then data.length + (data.length - done.2) else data.length)

def desBlock (ctx : DesCtx) (mode : Bool) : BlockMode where
  whole chain block := (desEcbCrypt ctx block mode).map fun out => (out, chain)
  last _ rest := desEcbCrypt ctx (padded rest) mode

-- `des_encrypt` has no chaining value
def desEncrypt (ctx : DesCtx) (data : Bytes) : Option (Bytes × Nat) :=
  crypt (desBlock ctx false) (zeros 8) data

def desDecrypt (ctx : DesCtx) (data : Bytes) : Option (Bytes × Nat) :=
  crypt (desBlock ctx true) (zeros 8) data

inductive BatchMode where
  | ecb
  | cbc
deriving DecidableEq, Repr

structure Des3Ctx where
  mode : BatchMode
  iv : Bytes
  key1 : DesCtx
  key2 : DesCtx
  key3 : DesCtx
  ivLength : iv.length = 8

def des3SetKey (mode : BatchMode) (iv key : Bytes) : Option Des3Ctx :=
  if ivLength : iv.length = 8 then do
    let key1 ← desSetKey (key.take 8)
    let key2 ← desSetKey ((key.drop 8).take 8)
    let key3 ← desSetKey ((key.drop 16).take 8)
    some { mode, iv, key1, key2, key3, ivLength }
  else none

def des3EncryptBlock (ctx : Des3Ctx) (block : Bytes) : Option Bytes := do
  let out ← desEcbCrypt ctx.key1 block false
  let buf ← desEcbCrypt ctx.key2 out true
  desEcbCrypt ctx.key3 buf false

def des3DecryptBlock (ctx : Des3Ctx) (block : Bytes) : Option Bytes := do
  let out ← desEcbCrypt ctx.key3 block true
  let buf ← desEcbCrypt ctx.key2 out false
  desEcbCrypt ctx.key1 buf true

def des3EcbEncrypt (ctx : Des3Ctx) : BlockMode where
  whole chain block := (des3EncryptBlock ctx block).map fun out => (out, chain)
  last _ rest := des3EncryptBlock ctx (padded rest)

def des3EcbDecrypt (ctx : Des3Ctx) : BlockMode where
  whole chain block := (des3DecryptBlock ctx block).map fun out => (out, chain)
  last _ rest := des3DecryptBlock ctx (padded rest)

def des3CbcEncrypt (ctx : Des3Ctx) : BlockMode where
  whole buf block := (des3EncryptBlock ctx (xorFront buf block)).map fun out => (out, out)
  last buf rest := des3EncryptBlock ctx (xorFront buf rest)

def des3CbcDecrypt (ctx : Des3Ctx) : BlockMode where
  whole link block := (des3DecryptBlock ctx block).map fun out => (xorFront out link, block)
  last link rest := (des3DecryptBlock ctx (padded rest)).map fun out => xorFront out link

def des3Encrypt (ctx : Des3Ctx) (data : Bytes) : Option (Bytes × Nat) :=
  match ctx.mode with
  | .ecb => crypt (des3EcbEncrypt ctx) ctx.iv data
  | .cbc => crypt (des3CbcEncrypt ctx) ctx.iv data

def des3Decrypt (ctx : Des3Ctx) (data : Bytes) : Option (Bytes × Nat) :=
  match ctx.mode with
  | .ecb => crypt (des3EcbDecrypt ctx) ctx.iv data
  | .cbc => crypt (des3CbcDecrypt ctx) ctx.iv data

def roundUp (length : Nat) : Nat := (length + 7) / 8 * 8

section Loop

variable {mode : BlockMode} {chain rest : Bytes} {offset : Nat}

theorem cryptLoop_whole (room : offset + 8 ≤ intMax) (long : 8 ≤ rest.length) :
    cryptLoop mode offset chain rest =
      (mode.whole chain (rest.take 8)).bind fun step =>
        (cryptLoop mode (offset + 8) step.2 (rest.drop 8)).map
          fun done => (step.1 ++ done.1, done.2) := by
  rw [cryptLoop, if_neg (by omega), if_pos long]

theorem cryptLoop_nil (room : offset + 8 ≤ intMax) :
    cryptLoop mode offset chain [] = some ([], offset) := by
  rw [cryptLoop, if_neg (by omega), if_neg (by decide), if_pos rfl]

theorem cryptLoop_last (room : offset + 8 ≤ intMax) (short : rest.length < 8) (some_ : rest ≠ []) :
    cryptLoop mode offset chain rest = (mode.last chain rest).map fun out => (out, offset) := by
  rw [cryptLoop, if_neg (by omega), if_neg (by omega), if_neg some_]

theorem cryptLoop_overflow (mode : BlockMode) (offset : Nat) (chain rest : Bytes)
    (past : intMax < offset + 8 * (rest.length / 8) + 8) : cryptLoop mode offset chain rest = none := by
  by_cases full : intMax < offset + 8
  · rw [cryptLoop, if_pos full]
  · by_cases long : 8 ≤ rest.length
    · have tail (next : Bytes) : cryptLoop mode (offset + 8) next (rest.drop 8) = none :=
        cryptLoop_overflow mode (offset + 8) next (rest.drop 8) (by rw [List.length_drop]; omega)
      rw [cryptLoop_whole (by omega) long]
      cases mode.whole chain (rest.take 8) with
      | none => rfl
      | some step =>
        change (cryptLoop mode (offset + 8) step.2 (rest.drop 8)).map _ = none
        rw [tail]
        rfl
    · omega
termination_by rest.length
decreasing_by
  rw [List.length_drop]
  omega

end Loop

/-- Whole blocks come back with the chaining value, and the partial block comes back padded. -/
structure Undoes (enc dec : BlockMode) : Prop where
  whole {chain block : Bytes} : chain.length = 8 → block.length = 8 →
    ∃ out next, enc.whole chain block = some (out, next) ∧ out.length = 8 ∧ next.length = 8 ∧
      dec.whole chain out = some (block, next)
  last {chain rest : Bytes} : chain.length = 8 → rest.length < 8 →
    ∃ out next, enc.last chain rest = some out ∧ out.length = 8 ∧
      dec.whole chain out = some (padded rest, next)

section Inverse

variable {enc dec : BlockMode}

theorem cryptLoop_inverse (undoes : Undoes enc dec) (offset : Nat) {chain : Bytes}
    (eight : chain.length = 8) (data : Bytes)
    (room : offset + roundUp data.length + 8 ≤ intMax) :
    ∃ out, cryptLoop enc offset chain data = some (out, offset + 8 * (data.length / 8)) ∧
      out.length = roundUp data.length ∧
      cryptLoop dec offset chain out =
        some (data ++ zeros (roundUp data.length - data.length), offset + roundUp data.length) := by
  unfold roundUp at room ⊢
  by_cases long : 8 ≤ data.length
  · -- a whole block, then the rest of the data
    have front : (data.take 8).length = 8 := by
      rw [length_take]
      omega
    have back : (data.drop 8).length = data.length - 8 := List.length_drop
    obtain ⟨block, next, forward, blockLength, nextLength, backward⟩ := undoes.whole eight front
    obtain ⟨out, forwardRest, outLength, backwardRest⟩ :=
      cryptLoop_inverse undoes (offset + 8) nextLength (data.drop 8) (by
        unfold roundUp
        omega)
    unfold roundUp at outLength backwardRest
    have written : (block ++ out).length = (data.length + 7) / 8 * 8 := by
      rw [length_append]
      omega
    refine ⟨block ++ out, ?_, written, ?_⟩
    · rw [cryptLoop_whole (by omega) long, forward, bind_some, forwardRest,
        map_some, back]
      congr 2
      omega
    · rw [cryptLoop_whole (by omega) (by omega), ← blockLength, take_left, drop_left,
        backward, bind_some, blockLength, backwardRest, map_some, back]
      dsimp only
      rw [← append_assoc, take_append_drop]
      have same : (data.length - 8 + 7) / 8 * 8 - (data.length - 8) =
          (data.length + 7) / 8 * 8 - data.length := by
        omega
      rw [same]
      congr 2
      omega
  · by_cases empty : data = []
    · subst empty
      exact ⟨[], cryptLoop_nil (by omega), rfl, cryptLoop_nil (by omega)⟩
    · have positive := length_pos_iff.mpr empty
      obtain ⟨out, next, forward, outLength, backward⟩ := undoes.last eight (Nat.lt_of_not_le long)
      have up : (data.length + 7) / 8 * 8 = 8 := by omega
      rw [up] at room ⊢
      refine ⟨out, ?_, outLength, ?_⟩
      · rw [cryptLoop_last (by omega) (Nat.lt_of_not_le long) empty, forward,
          map_some]
        congr 2
        omega
      · rw [cryptLoop_whole (by omega) (by omega), ← outLength, take_length, drop_length,
          backward, bind_some, outLength, cryptLoop_nil (by omega)]
        rw [map_some, append_nil]
        rfl
termination_by data.length
decreasing_by
  rw [List.length_drop]
  omega

end Inverse

/-- The encryption writes and reports the padded length, and the decryption of what it wrote gives
the padded data. -/
def RoundTrips (encrypt decrypt : Bytes → Option (Bytes × Nat)) (data : Bytes) : Prop :=
  ∃ cipher, encrypt data = some (cipher, roundUp data.length) ∧ cipher.length = roundUp data.length ∧
    decrypt cipher =
      some (data ++ zeros (roundUp data.length - data.length), roundUp data.length)

/-- No partial block or half a block, and offsets that an `int` holds. -/
def WholeOrHalf (length : Nat) : Prop :=
  (length % 8 = 0 ∨ length % 8 = 4) ∧ length ≤ 2147483632

theorem crypt_roundTrips_iff {enc dec : BlockMode} (undoes : Undoes enc dec) {chain : Bytes}
    (eight : chain.length = 8) (data : Bytes) :
    RoundTrips (crypt enc chain) (crypt dec chain) data ↔ WholeOrHalf data.length := by
  have top : intMax = 2147483647 := rfl
  constructor
  · intro trips
    obtain ⟨cipher, encrypted, cipherLength, decrypted⟩ := trips
    have room : roundUp data.length + 8 ≤ intMax := by
      by_cases past : intMax < 0 + 8 * (cipher.length / 8) + 8
      · rw [crypt, cryptLoop_overflow dec 0 chain cipher past] at decrypted
        cases decrypted
      · rw [cipherLength] at past
        unfold roundUp at past ⊢
        omega
    obtain ⟨out, forward, _, _⟩ := cryptLoop_inverse undoes 0 eight data (by omega)
    rw [crypt, forward, map_some, some_inj] at encrypted
    have reported := congrArg Prod.snd encrypted
    dsimp only at reported
    unfold roundUp at reported room
    split at reported
    all_goals exact ⟨by omega, by omega⟩
  · intro fits
    obtain ⟨shape, bound⟩ := fits
    obtain ⟨out, forward, outLength, backward⟩ := cryptLoop_inverse undoes 0 eight data (by
      unfold roundUp
      omega)
    refine ⟨out, ?_, outLength, ?_⟩
    · rw [crypt, forward, map_some]
      unfold roundUp
      congr 2
      dsimp only
      split
      all_goals omega
    · rw [crypt, backward, map_some, Nat.zero_add, outLength, if_neg (Nat.lt_irrefl _)]

theorem padded_length {rest : Bytes} (short : rest.length ≤ 8) : (padded rest).length = 8 := by
  rw [padded, length_append, zeros, length_replicate]
  omega

theorem xorFront_length (buf data : Bytes) : (xorFront buf data).length = buf.length := by
  fun_induction xorFront buf data with
  | case1 byte buf mask data ih => rw [length_cons, length_cons, ih]
  | case2 => rfl

theorem xorFront_nil (buf : Bytes) : xorFront buf [] = buf := by
  cases buf with
  | nil => rfl
  | cons byte buf => rfl

theorem xorFront_self (buf : Bytes) : xorFront buf buf = zeros buf.length := by
  induction buf with
  | nil => rfl
  | cons byte buf ih =>
    rw [xorFront, UInt8.xor_self, ih]
    rfl

theorem xorFront_twice (buf data : Bytes) (short : data.length ≤ buf.length) :
    xorFront (xorFront buf data) buf = data ++ zeros (buf.length - data.length) := by
  induction data generalizing buf with
  | nil => rw [xorFront_nil, xorFront_self, nil_append, length_nil, Nat.sub_zero]
  | cons mask data ih =>
    cases buf with
    | nil =>
      rw [length_cons, length_nil] at short
      omega
    | cons byte buf =>
      rw [length_cons, length_cons] at short
      have mixed : byte ^^^ mask ^^^ byte = mask := by
        rw [UInt8.xor_comm byte mask, UInt8.xor_assoc, UInt8.xor_self, UInt8.xor_zero]
      rw [xorFront, xorFront, mixed, ih buf (by omega), length_cons, length_cons,
        Nat.add_sub_add_right]
      rfl

theorem desBlock_undoes (ctx : DesCtx) : Undoes (desBlock ctx false) (desBlock ctx true) := by
  constructor
  · intro chain block chainLength blockLength
    obtain ⟨cipher, forward, cipherLength, backward⟩ := desEcbCrypt_inverse ctx false blockLength
    refine ⟨cipher, chain, ?_, cipherLength, chainLength, ?_⟩
    · change (desEcbCrypt ctx block false).map _ = _
      rw [forward]
      rfl
    · change (desEcbCrypt ctx cipher true).map _ = _
      rw [show desEcbCrypt ctx cipher true = some block from backward]
      rfl
  · intro chain rest _ short
    obtain ⟨cipher, forward, cipherLength, backward⟩ :=
      desEcbCrypt_inverse ctx false (padded_length (Nat.le_of_lt short))
    refine ⟨cipher, chain, forward, cipherLength, ?_⟩
    change (desEcbCrypt ctx cipher true).map _ = _
    rw [show desEcbCrypt ctx cipher true = some (padded rest) from backward]
    rfl

theorem des3Block_inverse (ctx : Des3Ctx) {block : Bytes} (eight : block.length = 8) :
    ∃ cipher, des3EncryptBlock ctx block = some cipher ∧ cipher.length = 8 ∧
      des3DecryptBlock ctx cipher = some block := by
  obtain ⟨first, forward1, length1, backward1⟩ := desEcbCrypt_inverse ctx.key1 false eight
  obtain ⟨second, forward2, length2, backward2⟩ := desEcbCrypt_inverse ctx.key2 true length1
  obtain ⟨third, forward3, length3, backward3⟩ := desEcbCrypt_inverse ctx.key3 false length2
  refine ⟨third, ?_, length3, ?_⟩
  · rw [des3EncryptBlock, forward1, bind_eq_bind, bind_some, forward2,
      bind_some, forward3]
  · rw [Bool.not_false] at backward1 backward3
    rw [Bool.not_true] at backward2
    rw [des3DecryptBlock, backward3, bind_eq_bind, bind_some, backward2,
      bind_some, backward1]

theorem des3Ecb_undoes (ctx : Des3Ctx) : Undoes (des3EcbEncrypt ctx) (des3EcbDecrypt ctx) := by
  constructor
  · intro chain block chainLength blockLength
    obtain ⟨cipher, forward, cipherLength, backward⟩ := des3Block_inverse ctx blockLength
    refine ⟨cipher, chain, ?_, cipherLength, chainLength, ?_⟩
    · change (des3EncryptBlock ctx block).map _ = _
      rw [forward]
      rfl
    · change (des3DecryptBlock ctx cipher).map _ = _
      rw [backward]
      rfl
  · intro chain rest _ short
    obtain ⟨cipher, forward, cipherLength, backward⟩ :=
      des3Block_inverse ctx (padded_length (Nat.le_of_lt short))
    refine ⟨cipher, chain, forward, cipherLength, ?_⟩
    change (des3DecryptBlock ctx cipher).map _ = _
    rw [backward]
    rfl

theorem des3Cbc_undoes (ctx : Des3Ctx) : Undoes (des3CbcEncrypt ctx) (des3CbcDecrypt ctx) := by
  constructor
  · intro chain block chainLength blockLength
    obtain ⟨cipher, forward, cipherLength, backward⟩ :=
      des3Block_inverse ctx ((xorFront_length chain block).trans chainLength)
    refine ⟨cipher, cipher, ?_, cipherLength, cipherLength, ?_⟩
    · change (des3EncryptBlock ctx (xorFront chain block)).map _ = _
      rw [forward]
      rfl
    · change (des3DecryptBlock ctx cipher).map _ = _
      rw [backward, map_some, xorFront_twice chain block (by omega), chainLength, blockLength]
      exact congrArg (fun out => some (out, cipher)) (append_nil block)
  · intro chain rest chainLength short
    obtain ⟨cipher, forward, cipherLength, backward⟩ :=
      des3Block_inverse ctx ((xorFront_length chain rest).trans chainLength)
    refine ⟨cipher, cipher, forward, cipherLength, ?_⟩
    change (des3DecryptBlock ctx cipher).map _ = _
    rw [backward, map_some, xorFront_twice chain rest (by omega), chainLength]
    rfl

theorem des_roundTrips (ctx : DesCtx) (data : Bytes) :
    RoundTrips (desEncrypt ctx) (desDecrypt ctx) data ↔ WholeOrHalf data.length :=
  crypt_roundTrips_iff (desBlock_undoes ctx) rfl data

theorem des3_roundTrips (ctx : Des3Ctx) (data : Bytes) :
    RoundTrips (des3Encrypt ctx) (des3Decrypt ctx) data ↔ WholeOrHalf data.length := by
  unfold des3Encrypt des3Decrypt
  cases ctx.mode with
  | ecb => exact crypt_roundTrips_iff (des3Ecb_undoes ctx) ctx.ivLength data
  | cbc => exact crypt_roundTrips_iff (des3Cbc_undoes ctx) ctx.ivLength data

/-- Blocks come back, and data comes back exactly when its last block is whole or half. -/
theorem desModes_roundTrips_iff (des : DesCtx) (des3 : Des3Ctx) :
    (∀ (mode : Bool) (block : { bytes : Bytes // bytes.length = 8 }),
      ∃ cipher, desEcbCrypt des block mode = some cipher ∧
        desEcbCrypt des cipher (!mode) = some block) ∧
    (∀ data, RoundTrips (desEncrypt des) (desDecrypt des) data ↔ WholeOrHalf data.length) ∧
    ∀ data, RoundTrips (des3Encrypt des3) (des3Decrypt des3) data ↔ WholeOrHalf data.length := by
  refine ⟨?_, des_roundTrips des, des3_roundTrips des3⟩
  intro mode block
  obtain ⟨cipher, forward, _, backward⟩ := desEcbCrypt_inverse des mode block.property
  exact ⟨cipher, forward, backward⟩

/-- Three bytes become a block of eight, and six is reported. -/
theorem des3Encrypt_threeBytes :
    ∃ ctx cipher, des3SetKey .ecb (zeros 8) (zeros 24) = some ctx ∧
      des3Encrypt ctx [1, 2, 3] = some (cipher, 6) ∧ cipher.length = 8 ∧ roundUp 3 = 8 ∧
      ¬ RoundTrips (des3Encrypt ctx) (des3Decrypt ctx) [1, 2, 3] := by
  cases scheduled : desSetKey (zeros 8) with
  | none => exact absurd scheduled (by decide +kernel)
  | some key =>
    let ctx : Des3Ctx :=
      { mode := .ecb, iv := zeros 8, key1 := key, key2 := key, key3 := key, ivLength := rfl }
    have made : des3SetKey .ecb (zeros 8) (zeros 24) = some ctx := by
      have first : (zeros 24).take 8 = zeros 8 := rfl
      have second : ((zeros 24).drop 8).take 8 = zeros 8 := rfl
      have third : ((zeros 24).drop 16).take 8 = zeros 8 := rfl
      rw [des3SetKey, dif_pos (show (zeros 8).length = 8 from rfl), first, second, third,
        scheduled]
      rfl
    have eight : (padded [1, 2, 3]).length = 8 := rfl
    obtain ⟨cipher, forward, cipherLength, _⟩ := des3Block_inverse ctx eight
    have encrypted : des3Encrypt ctx [1, 2, 3] = some (cipher, 6) := by
      change (cryptLoop (des3EcbEncrypt ctx) 0 (zeros 8) [1, 2, 3]).map _ = _
      rw [cryptLoop_last (by decide) (by decide) (by decide)]
      change ((des3EncryptBlock ctx (padded [1, 2, 3])).map _).map _ = _
      rw [forward]
      rfl
    refine ⟨ctx, cipher, made, encrypted, cipherLength, rfl, ?_⟩
    intro trips
    obtain ⟨other, reported, _, _⟩ := trips
    rw [encrypted] at reported
    cases reported

end Purple.Ciphers.Des
