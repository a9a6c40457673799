/-
The HMAC cipher of hmac.c over the hash ciphers of a registry.

A hash is known by its operations on a context; `none` where a run reads a length or a pad
that was never set.
-/

import Purple.CString

namespace Purple.Ciphers.Hmac

open List CString

abbrev Bytes := List UInt8

/-- What `hmac.c` calls of a hash.  `digest` takes the size of the buffer, and fails where the digest
does not fit. -/
structure HashOps (Ctx : Type) where
  blockSize : Nat
  init : Ctx
  reset : Ctx → Ctx
  append : Ctx → Bytes → Ctx
  digest : Nat → Ctx → Option Bytes × Ctx

abbrev Registry (Ctx : Type) := List (Bytes × HashOps Ctx)

variable {Ctx : Type}

/-- `purple_ciphers_find_cipher` -/
def findCipher (ciphers : Registry Ctx) (name : Bytes) : Option (HashOps Ctx) :=
  (ciphers.find? fun cipher => cipher.1.map asciiToLower == name.map asciiToLower).map Prod.snd

structure HmacContext (Ctx : Type) where
  hash : Option (HashOps Ctx × Ctx)
  name : Option Bytes
  blocksize : Int
  opad : Option Bytes

def hmacInit : HmacContext Ctx := { hash := none, name := none, blocksize := 0, opad := none }

def hmacSetOpt (ciphers : Registry Ctx) (ctx : HmacContext Ctx) (name value : Bytes) : HmacContext Ctx :=
  if name = ascii "hash" then
    match findCipher ciphers value with
    | some ops => { ctx with name := some value, hash := some (ops, ops.init), blocksize := ops.blockSize }
    | none => { ctx with name := some value, hash := none, blocksize := -1 }
  else ctx

def hmacAppend (ctx : HmacContext Ctx) (data : Bytes) : HmacContext Ctx :=
  match ctx.hash with
  | none => ctx
  | some (ops, hash) => { ctx with hash := some (ops, ops.append hash data) }

def hmacDigest (ctx : HmacContext Ctx) (inLen : Nat) : Option (Option Bytes × HmacContext Ctx) :=
  match ctx.hash with
  | none => some (none, ctx)
  | some (ops, hash) =>
    match ops.digest 100 hash, ctx.opad with
    | (some innerHash, hash), some opad =>
      let hash := ops.append (ops.append (ops.reset hash) opad) innerHash
      let (result, hash) := ops.digest inLen hash
      some (result, { ctx with hash := some (ops, hash) })
    | _, _ => none

def zeros (count : Nat) : Bytes := List.replicate count 0

/-- The pads of a key that is no longer than a block. -/
def hmacPad (ctx : HmacContext Ctx) (ops : HashOps Ctx) (hash : Ctx) (key : Bytes) : HmacContext Ctx :=
  let blocksize := ctx.blocksize.toNat
  let fullKey := (key ++ zeros (blocksize - key.length)).take blocksize
  let ipad := fullKey.map fun byte => 0x36 ^^^ byte
  let opad := fullKey.map fun byte => 0x5c ^^^ byte
  { ctx with hash := some (ops, ops.append (ops.reset hash) ipad), opad := some opad }

def hmacSetKeyWithLen (ctx : HmacContext Ctx) (key : Bytes) : Option (HmacContext Ctx) :=
  match ctx.hash with
  | none => some ctx
  | some (ops, hash) =>
    if ctx.blocksize.toNat < key.length then
      -- the length of the key becomes the length of its digest
      match ops.digest 100 (ops.append (ops.reset hash) key) with
      | (some digest, hash) => some (hmacPad ctx ops hash digest)
      | (none, _) => none
    else some (hmacPad ctx ops hash key)

structure Job where
  hash : Bytes
  key : Bytes
  parts : List Bytes
  inLen : Nat
deriving DecidableEq, Repr

/-- `set_option`, `set_key_with_len`, every `append` and `digest` on a context as it is. -/
def hmacCalls (ciphers : Registry Ctx) (ctx : HmacContext Ctx) (job : Job) :
    Option (Option Bytes × HmacContext Ctx) :=
  (hmacSetKeyWithLen (hmacSetOpt ciphers ctx (ascii "hash") job.hash) job.key).bind fun ctx =>
    hmacDigest (job.parts.foldl hmacAppend ctx) job.inLen

/-- One computation after the other on one context. -/
def hmacRepeat (ciphers : Registry Ctx) (ctx : HmacContext Ctx) :
    List Job → Option (List (Option Bytes) × HmacContext Ctx)
  | [] => some ([], ctx)
  | job :: jobs =>
    (hmacCalls ciphers ctx job).bind fun first =>
      (hmacRepeat ciphers first.2 jobs).map fun rest => (first.1 :: rest.1, rest.2)

def hmac (digest : Bytes → Bytes) (blockSize : Nat) (key message : Bytes) : Bytes :=
  let key := if blockSize < key.length then digest key else key
  let padded := key ++ zeros (blockSize - key.length)
  let inner := digest (padded.map (fun byte => byte ^^^ 0x36) ++ message)
  digest (padded.map (fun byte => byte ^^^ 0x5c) ++ inner)

/-- The digest of a context is that of everything appended since its last reset, and it is no longer
than a block or a hundred bytes. -/
structure Computes (ops : HashOps Ctx) (digest : Bytes → Bytes) : Prop where
  appended : ∀ ctx (parts : List Bytes) inLen, (digest parts.flatten).length ≤ inLen →
    (ops.digest inLen (parts.foldl ops.append (ops.reset ctx))).1 = some (digest parts.flatten)
  block : ∀ message, (digest message).length ≤ ops.blockSize
  hundred : ∀ message, (digest message).length ≤ 100

section Computes

variable {ops : HashOps Ctx} {digest : Bytes → Bytes}

theorem Computes.one (computes : Computes ops digest) (ctx : Ctx) (data : Bytes) :
    (ops.digest 100 (ops.append (ops.reset ctx) data)).1 = some (digest data) := by
  have single := computes.appended ctx [data] 100
  rw [flatten_singleton] at single
  exact single (computes.hundred data)

theorem xor_pad (pad : UInt8) (key : Bytes) :
    key.map (fun byte => pad ^^^ byte) = key.map fun byte => byte ^^^ pad := by
  apply map_congr_left
  intro byte _
  exact UInt8.xor_comm pad byte

def blockKey (digest : Bytes → Bytes) (blockSize : Nat) (key : Bytes) : Bytes :=
  let key := if blockSize < key.length then digest key else key
  key ++ zeros (blockSize - key.length)

theorem blockKey_length (computes : Computes ops digest) (key : Bytes) :
    (blockKey digest ops.blockSize key).length = ops.blockSize := by
  unfold blockKey
  dsimp only
  rw [length_append, zeros, length_replicate]
  split
  · have := computes.block key
    omega
  · omega

theorem hmacSetKeyWithLen_eq (computes : Computes ops digest) {ctx : HmacContext Ctx} {hash : Ctx}
    (holds : ctx.hash = some (ops, hash)) (block : ctx.blocksize = ops.blockSize) (key : Bytes) :
    ∃ before, hmacSetKeyWithLen ctx key = some
      { ctx with
        hash := some (ops, ops.append (ops.reset before)
          ((blockKey digest ops.blockSize key).map fun byte => byte ^^^ 0x36))
        opad := some ((blockKey digest ops.blockSize key).map fun byte => byte ^^^ 0x5c) } := by
  have whole : (blockKey digest ops.blockSize key).take ops.blockSize =
      blockKey digest ops.blockSize key := by
    rw [take_of_length_le (Nat.le_of_eq (blockKey_length computes key))]
  have size : ctx.blocksize.toNat = ops.blockSize := by
    rw [block]
    rfl
  by_cases long : ops.blockSize < key.length
  · have compressed := computes.one hash key
    refine ⟨(ops.digest 100 (ops.append (ops.reset hash) key)).2, ?_⟩
    unfold hmacSetKeyWithLen
    rw [holds]
    dsimp only
    rw [size, if_pos long]
    unfold blockKey at whole ⊢
    rw [if_pos long] at whole ⊢
    split
    · rename_i digested after equal
      rw [equal, Option.some_inj] at compressed
      change digested = _ at compressed
      rw [hmacPad, size, compressed, equal]
      dsimp only at whole ⊢
      rw [whole, xor_pad, xor_pad]
    · rename_i equal
      rw [equal] at compressed
      cases compressed
  · refine ⟨hash, ?_⟩
    unfold hmacSetKeyWithLen
    rw [holds]
    dsimp only
    rw [size, if_neg long]
    unfold blockKey at whole ⊢
    rw [if_neg long] at whole ⊢
    rw [hmacPad, size]
    dsimp only at whole ⊢
    rw [whole, xor_pad, xor_pad]

theorem hmacAppend_foldl {ctx : HmacContext Ctx} {hash : Ctx} (holds : ctx.hash = some (ops, hash))
    (parts : List Bytes) :
    parts.foldl hmacAppend ctx = { ctx with hash := some (ops, parts.foldl ops.append hash) } := by
  induction parts generalizing ctx hash with
  | nil =>
    change ctx = _
    rw [foldl_nil, ← holds]
  | cons part parts ih =>
    have next : (hmacAppend ctx part).hash = some (ops, ops.append hash part) := by
      rw [hmacAppend, holds]
    rw [foldl_cons, ih next, hmacAppend, holds]
    rfl

theorem hmacDigest_eq (computes : Computes ops digest) {ctx : HmacContext Ctx} {before : Ctx}
    {parts : List Bytes} {pad : Bytes} {inLen : Nat}
    (holds : ctx.hash = some (ops, parts.foldl ops.append (ops.reset before)))
    (padded : ctx.opad = some pad) (fits : ∀ message, (digest message).length ≤ inLen) :
    ∃ after, hmacDigest ctx inLen = some (some (digest (pad ++ digest parts.flatten)), after) := by
  have inner := computes.appended before parts 100 (computes.hundred _)
  unfold hmacDigest
  rw [holds, padded]
  dsimp only
  cases digested : ops.digest 100 (parts.foldl ops.append (ops.reset before)) with
  | mk result after =>
    rw [digested] at inner
    change result = _ at inner
    subst inner
    have outer := computes.appended after [pad, digest parts.flatten] inLen (fits _)
    rw [flatten_cons, flatten_singleton] at outer
    change (ops.digest inLen
      (ops.append (ops.append (ops.reset after) pad) (digest parts.flatten))).1 = _ at outer
    exact ⟨_, congrArg (fun result => some (result, _)) outer⟩

theorem hmacCalls_eq {ciphers : Registry Ctx} {job : Job} (found : findCipher ciphers job.hash = some ops)
    (computes : Computes ops digest) (fits : ∀ message, (digest message).length ≤ job.inLen)
    (ctx : HmacContext Ctx) :
    ∃ after, hmacCalls ciphers ctx job =
      some (some (hmac digest ops.blockSize job.key job.parts.flatten), after) := by
  have option : hmacSetOpt ciphers ctx (ascii "hash") job.hash =
      { ctx with name := some job.hash, hash := some (ops, ops.init), blocksize := ops.blockSize } := by
    rw [hmacSetOpt, if_pos rfl, found]
  obtain ⟨before, keyed⟩ := hmacSetKeyWithLen_eq computes
    (show (hmacSetOpt ciphers ctx (ascii "hash") job.hash).hash = some (ops, ops.init) by rw [option])
    (show (hmacSetOpt ciphers ctx (ascii "hash") job.hash).blocksize = ops.blockSize by rw [option])
    job.key
  unfold hmacCalls
  rw [keyed, Option.bind_some, hmacAppend_foldl rfl]
  -- the inner pad is the first part
  let inner := (blockKey digest ops.blockSize job.key).map fun byte => byte ^^^ 0x36
  let appended : HmacContext Ctx :=
    { hmacSetOpt ciphers ctx (ascii "hash") job.hash with
      hash := some (ops, job.parts.foldl ops.append (ops.append (ops.reset before) inner))
      opad := some ((blockKey digest ops.blockSize job.key).map fun byte => byte ^^^ 0x5c) }
  have holds : appended.hash = some (ops, (inner :: job.parts).foldl ops.append (ops.reset before)) := rfl
  obtain ⟨after, digested⟩ := hmacDigest_eq computes holds rfl fits
  exact ⟨after, digested⟩

end Computes

end Purple.Ciphers.Hmac
