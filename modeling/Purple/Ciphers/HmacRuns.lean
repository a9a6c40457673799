/-
One HMAC context used again and again without a reset, as `jabber_scram_hi` uses it.

Every computation gives the value of a fresh context, and the rounds of `jabber_scram_hi`
are those over RFC 2104.
-/

import Purple.Ciphers.Hmac
import Purple.Jabber.ScramExchange

namespace Purple.Ciphers.Hmac

open List hiding Vector
open CString
open Jabber.Scram (JabberScramHash Primitives xorBytes)

variable {Ctx : Type}

def Job.expected (registry : Registry Ctx) (digestOf : Bytes → Bytes → Bytes) (job : Job) :
    Option Bytes :=
  (findCipher registry job.hash).map fun ops =>
    hmac (digestOf job.hash) ops.blockSize job.key job.parts.flatten

def Job.Served (registry : Registry Ctx) (digestOf : Bytes → Bytes → Bytes) (job : Job) : Prop :=
  (findCipher registry job.hash).isSome ∧ ∀ message, (digestOf job.hash message).length ≤ job.inLen

def AllCompute (registry : Registry Ctx) (digestOf : Bytes → Bytes → Bytes) : Prop :=
  ∀ name ops, findCipher registry name = some ops → Computes ops (digestOf name)

section Repeat

variable {registry : Registry Ctx} {digestOf : Bytes → Bytes → Bytes}

theorem hmacCalls_served (computes : AllCompute registry digestOf) {job : Job}
    (served : job.Served registry digestOf) (ctx : HmacContext Ctx) :
    ∃ after, hmacCalls registry ctx job = some (job.expected registry digestOf, after) := by
  obtain ⟨registered, fits⟩ := served
  obtain ⟨ops, found⟩ := Option.isSome_iff_exists.mp registered
  rw [Job.expected, found]
  exact hmacCalls_eq found (computes job.hash ops found) fits ctx

theorem hmacRepeat_served (computes : AllCompute registry digestOf) {jobs : List Job}
    (served : ∀ job ∈ jobs, job.Served registry digestOf) (ctx : HmacContext Ctx) :
    ∃ after, hmacRepeat registry ctx jobs = some (jobs.map (Job.expected registry digestOf), after) := by
  induction jobs generalizing ctx with
  | nil => exact ⟨ctx, rfl⟩
  | cons job jobs ih =>
    have here := served job mem_cons_self
    have later := fun job member => served job (mem_cons_of_mem _ member)
    obtain ⟨middle, first⟩ := hmacCalls_served computes here ctx
    obtain ⟨after, rest⟩ := ih later middle
    refine ⟨after, ?_⟩
    rw [hmacRepeat, first, Option.bind_some, rest]
    rfl

end Repeat

/-- A buffer after `digest` was to fill it. -/
def digestInto (buffer : Bytes) : Option Bytes → Bytes
  | none => buffer
  | some digest => digest ++ buffer.drop digest.length

def hiJob (hash : JabberScramHash) (str message : Bytes) : Job :=
  { hash := hash.name, key := str, parts := [message], inLen := hash.size }

/-- The rounds `i = 1 .. iterations - 1`, all on the context of the first one. -/
def hiRounds (registry : Registry Ctx) (hash : JabberScramHash) (str : Bytes) :
    Nat → HmacContext Ctx → Bytes → Bytes → Bytes → Option Bytes
  | 0, _, _, _, result => some result
  | rounds + 1, ctx, prev, tmp, result =>
    (hmacCalls registry ctx (hiJob hash str prev)).bind fun done =>
      let tmp := digestInto tmp done.1
      hiRounds registry hash str rounds done.2 tmp tmp (xorBytes result tmp)

def jabberScramHi (registry : Registry Ctx) (hash : JabberScramHash) (str salt : Bytes)
    (iterations : Nat) : Option (Option Bytes) :=
  if str = [] ∨ salt = [] ∨ iterations = 0 then some none
  else
    (hmacCalls registry hmacInit (hiJob hash str (salt ++ [0, 0, 0, 1]))).bind fun done =>
      let result := digestInto (zeros hash.size) done.1
      (hiRounds registry hash str (iterations - 1) done.2 result (zeros hash.size) result).map some

section Hi

variable {registry : Registry Ctx} {digestOf : Bytes → Bytes → Bytes} {prims : Primitives}
  {hash : JabberScramHash}

/-- The HMAC of the SCRAM mechanism is RFC 2104 over the registered hash. -/
def SameHmac (registry : Registry Ctx) (digestOf : Bytes → Bytes → Bytes) (prims : Primitives)
    (hash : JabberScramHash) : Prop :=
  ∀ key message, (hiJob hash key message).expected registry digestOf =
    some (Jabber.Scram.hmac prims hash key message)

theorem hmac_size (prims : Primitives) (hash : JabberScramHash) (key message : Bytes) :
    (Jabber.Scram.hmac prims hash key message).length = hash.size := by
  rw [Jabber.Scram.hmac, Vector.length_toList]

theorem digestInto_whole {buffer digest : Bytes} (size : digest.length = buffer.length) :
    digestInto buffer (some digest) = digest := by
  rw [digestInto, size, drop_length, append_nil]

theorem hiJob_calls (computes : AllCompute registry digestOf) (same : SameHmac registry digestOf prims hash)
    (fits : ∀ message, (digestOf hash.name message).length ≤ hash.size) (str message : Bytes)
    (ctx : HmacContext Ctx) :
    ∃ after, hmacCalls registry ctx (hiJob hash str message) =
      some (some (Jabber.Scram.hmac prims hash str message), after) := by
  have served : (hiJob hash str message).Served registry digestOf := by
    have expected := same str message
    rw [Job.expected, Option.map_eq_some_iff] at expected
    obtain ⟨ops, found, _⟩ := expected
    exact ⟨Option.isSome_iff_exists.mpr ⟨ops, found⟩, fits⟩
  obtain ⟨after, calls⟩ := hmacCalls_served computes served ctx
  rw [same str message] at calls
  exact ⟨after, calls⟩

theorem hiRounds_eq (computes : AllCompute registry digestOf) (same : SameHmac registry digestOf prims hash)
    (fits : ∀ message, (digestOf hash.name message).length ≤ hash.size) (str : Bytes) (rounds : Nat)
    (ctx : HmacContext Ctx) {prev tmp result : Bytes} (size : tmp.length = hash.size) :
    hiRounds registry hash str rounds ctx prev tmp result =
      some (Jabber.Scram.hiRounds prims hash str rounds prev result) := by
  induction rounds generalizing ctx prev tmp result with
  | zero => rfl
  | succ rounds ih =>
    obtain ⟨after, calls⟩ := hiJob_calls computes same fits str prev ctx
    have width := hmac_size prims hash str prev
    rw [hiRounds, calls, Option.bind_some]
    dsimp only
    rw [digestInto_whole (width.trans size.symm), ih after width]
    rfl

theorem jabberScramHi_calls (computes : AllCompute registry digestOf)
    (same : SameHmac registry digestOf prims hash)
    (fits : ∀ message, (digestOf hash.name message).length ≤ hash.size) (str salt : Bytes)
    (iterations : Nat) :
    jabberScramHi registry hash str salt iterations =
      some (Jabber.Scram.jabberScramHi prims hash str salt iterations) := by
  unfold jabberScramHi Jabber.Scram.jabberScramHi
  split
  · rfl
  · obtain ⟨after, calls⟩ := hiJob_calls computes same fits str (salt ++ [0, 0, 0, 1]) hmacInit
    have empty : (zeros hash.size).length = hash.size := length_replicate
    have width := hmac_size prims hash str (salt ++ [0, 0, 0, 1])
    rw [calls, Option.bind_some]
    dsimp only
    rw [digestInto_whole (width.trans empty.symm), hiRounds_eq computes same fits str _ after empty]
    rfl

end Hi

/-- Any computations in a row on any context give RFC 2104 and what fresh contexts give, and
`jabber_scram_hi` gives what its rounds over RFC 2104 give. -/
theorem hmac_repeated {registry : Registry Ctx} {digestOf : Bytes → Bytes → Bytes}
    (computes : AllCompute registry digestOf) :
    (∀ jobs : List Job, (∀ job ∈ jobs, job.Served registry digestOf) → ∀ ctx : HmacContext Ctx,
      (hmacRepeat registry ctx jobs).map Prod.fst = some (jobs.map (Job.expected registry digestOf)) ∧
      ∀ job ∈ jobs, (hmacCalls registry hmacInit job).map Prod.fst =
        some (job.expected registry digestOf)) ∧
    ∀ (prims : Primitives) (hash : JabberScramHash), SameHmac registry digestOf prims hash →
      (∀ message, (digestOf hash.name message).length ≤ hash.size) → ∀ str salt iterations,
        jabberScramHi registry hash str salt iterations =
          some (Jabber.Scram.jabberScramHi prims hash str salt iterations) := by
  constructor
  · intro jobs served ctx
    obtain ⟨after, repeated⟩ := hmacRepeat_served computes served ctx
    refine ⟨by rw [repeated]; rfl, ?_⟩
    intro job member
    obtain ⟨fresh, calls⟩ := hmacCalls_served computes (served job member) hmacInit
    rw [calls]
    rfl
  · intro prims hash same fits str salt iterations
    exact jabberScramHi_calls computes same fits str salt iterations

def passwordPad (pad : UInt8) : Bytes := (ascii "password" ++ zeros 56).map fun byte => byte ^^^ pad

def passwordSha1 (message : Bytes) : Bytes :=
  let inner0 : Bytes :=
    [25, 165, 248, 50, 21, 181, 149, 239, 156, 223, 204, 251, 58, 140, 194, 120, 229, 91, 133, 118]
  let outer0 : Bytes :=
    [12, 96, 200, 15, 150, 31, 14, 113, 243, 169, 181, 36, 175, 96, 18, 6, 47, 224, 55, 166]
  let inner1 : Bytes :=
    [230, 134, 102, 170, 155, 92, 144, 165, 241, 222, 180, 74, 183, 249, 244, 228, 7, 158, 79, 220]
  let outer1 : Bytes :=
    [230, 12, 201, 66, 81, 50, 97, 253, 62, 183, 108, 14, 97, 125, 83, 246, 247, 62, 190, 241]
  if message = passwordPad 0x36 ++ (ascii "salt" ++ [0, 0, 0, 1]) then inner0
  else if message = passwordPad 0x5c ++ inner0 then outer0
  else if message = passwordPad 0x36 ++ outer0 then inner1
  else if message = passwordPad 0x5c ++ inner1 then outer1
  else zeros 20

theorem passwordSha1_length (message : Bytes) : (passwordSha1 message).length = 20 := by
  unfold passwordSha1
  dsimp only
  split
  · rfl
  split
  · rfl
  split
  · rfl
  split
  all_goals rfl

/-- A context is what was appended since the last reset, which a digest is too. -/
def sha1Ops : HashOps Bytes where
  blockSize := 64
  init := []
  reset _ := []
  append data more := data ++ more
  digest inLen data := if inLen < 20 then (none, data) else (some (passwordSha1 data), [])

def sha1Registry : Registry Bytes := [(ascii "sha1", sha1Ops)]

theorem sha1Ops_append (parts : List Bytes) (data : Bytes) :
    parts.foldl sha1Ops.append data = data ++ parts.flatten := by
  induction parts generalizing data with
  | nil => exact (append_nil data).symm
  | cons part parts ih =>
    rw [foldl_cons, ih, flatten_cons, ← append_assoc]
    rfl

theorem sha1Registry_computes : AllCompute sha1Registry fun _ => passwordSha1 := by
  intro name ops found
  have only : ops = sha1Ops := by
    unfold findCipher sha1Registry at found
    rw [find?_cons] at found
    split at found
    · exact (Option.some.inj found).symm
    · cases found
  subst only
  constructor
  · intro ctx parts inLen fits
    rw [passwordSha1_length] at fits
    rw [sha1Ops_append]
    change (if inLen < 20 then (none, parts.flatten) else (some (passwordSha1 parts.flatten), [])).1 = _
    rw [if_neg (by omega)]
  · intro message
    rw [passwordSha1_length]
    decide
  · intro message
    rw [passwordSha1_length]
    decide

/-- The HMAC of the mechanism over `passwordSha1`. -/
def passwordHmac (hash : JabberScramHash) (key message : Bytes) : Vector UInt8 hash.size :=
  Vector.ofFn fun index => (hmac passwordSha1 64 key message).getD index 0

def sha1Hash : JabberScramHash := ⟨ascii "-SHA-1", ascii "sha1", 20⟩

def sha1Primitives : Primitives :=
  Jabber.Scram.primitivesWith passwordHmac fun hash _ => Vector.replicate hash.size 0

theorem ofFn_toList {size : Nat} {bytes : Bytes} (length : bytes.length = size) :
    (Vector.ofFn fun index : Fin size => bytes.getD index 0).toList = bytes := by
  apply ext_getElem
  · rw [Vector.length_toList, length]
  · intro index left right
    rw [Vector.getElem_toList, Vector.getElem_ofFn, getD_eq_getElem?_getD,
      getElem?_eq_getElem right, Option.getD_some]

theorem sha1Primitives_same : SameHmac sha1Registry (fun _ => passwordSha1) sha1Primitives sha1Hash := by
  intro key message
  have found : findCipher sha1Registry (ascii "sha1") = some sha1Ops := rfl
  have length : (hmac passwordSha1 64 key message).length = sha1Hash.size := passwordSha1_length _
  have expected : (hiJob sha1Hash key message).expected sha1Registry (fun _ => passwordSha1) =
      some (hmac passwordSha1 64 key message) := by
    rw [Job.expected, hiJob, sha1Hash, found, Option.map_some, flatten_singleton]
    rfl
  have called : Jabber.Scram.hmac sha1Primitives sha1Hash key message =
      hmac passwordSha1 64 key message := ofFn_toList length
  rw [expected, called]

theorem hmac_repeated_sha1 :
    let job : Job :=
      { hash := ascii "sha1", key := ascii "password", parts := [ascii "salt", [0, 0, 0, 1]], inLen := 20 }
    let value : Bytes :=
      [12, 96, 200, 15, 150, 31, 14, 113, 243, 169, 181, 36, 175, 96, 18, 6, 47, 224, 55, 166]
    (hmacRepeat sha1Registry hmacInit [job, job]).map Prod.fst = some [some value, some value] ∧
    jabberScramHi sha1Registry sha1Hash (ascii "password") (ascii "salt") 2 =
      some (some [234, 108, 1, 77, 199, 45, 111, 140, 205, 30, 217, 42, 206, 29, 65, 240, 216, 222,
        137, 87]) := by
  intro job value
  have fits : ∀ message, (passwordSha1 message).length ≤ 20 := fun message =>
    Nat.le_of_eq (passwordSha1_length message)
  have served : ∀ each ∈ [job, job], each.Served sha1Registry fun _ => passwordSha1 := by
    intro each member
    have same : each = job := by
      rw [mem_cons, mem_singleton, or_self] at member
      exact member
    subst same
    exact ⟨rfl, fits⟩
  constructor
  · rw [((hmac_repeated sha1Registry_computes).1 [job, job] served hmacInit).1]
    decide +kernel
  · rw [(hmac_repeated sha1Registry_computes).2 sha1Primitives sha1Hash sha1Primitives_same fits]
    decide +kernel

end Purple.Ciphers.Hmac
