/-
The SCRAM client of the Jabber protocol: `auth_scram.c` as it is compiled
without channel binding.

`none` is a read through a NULL pointer: the fields of a server message are
read from the vector `g_strsplit` gives without asking for its length.
-/

import Purple.CString

namespace Purple.Jabber.Scram

open CString

abbrev Bytes := List UInt8

structure JabberScramHash where
  mechSubstr : Bytes
  name : Bytes
  size : Nat
  deriving DecidableEq, Repr

def hashes : List JabberScramHash := [⟨ascii "-SHA-1", ascii "sha1", 20⟩]

def mechToHash (mech : Bytes) : Option JabberScramHash :=
  hashes.find? fun hash => (strstr hash.mechSubstr mech).isSome

/-- What the mechanism calls: the ciphers, `purple_base64_encode` and
`purple_base64_decode`, and `jabber_saslprep`.  A digest fills its buffer, and the
texts are C strings. -/
structure Primitives where
  hmac : (hash : JabberScramHash) → Bytes → Bytes → Vector UInt8 hash.size
  digest : (hash : JabberScramHash) → Bytes → Vector UInt8 hash.size
  base64Encode : Bytes → Bytes
  base64Decode : Bytes → Option Bytes
  saslprep : Bytes → Option Bytes
  encode_clean : ∀ bytes, 0 ∉ base64Encode bytes
  saslprep_clean : ∀ text prepped, saslprep text = some prepped → 0 ∉ prepped

variable (prims : Primitives)

def hmac (hash : JabberScramHash) (key str : Bytes) : Bytes := (prims.hmac hash key str).toList

/-- `hash()`: the digest of a buffer of the hash's own size. -/
def hash (hash : JabberScramHash) (data : Bytes) : Bytes := (prims.digest hash data).toList

/-- `left[j] ^= right[j]` over two buffers of one size. -/
def xorBytes (left right : Bytes) : Bytes := List.zipWith (· ^^^ ·) left right

/-- The rounds `i = 1 .. iterations - 1`. -/
def hiRounds (hash : JabberScramHash) (str : Bytes) : Nat → Bytes → Bytes → Bytes
  | 0, _, result => result
  | rounds + 1, prev, result =>
    let tmp := hmac prims hash str prev
    hiRounds hash str rounds tmp (xorBytes result tmp)

def jabberScramHi (hash : JabberScramHash) (str salt : Bytes) (iterations : Nat) : Option Bytes :=
  if str = [] ∨ salt = [] ∨ iterations = 0 then none
  else
    let result := hmac prims hash str (salt ++ [0, 0, 0, 1])
    some (hiRounds prims hash str (iterations - 1) result result)

structure JabberScramData where
  hash : JabberScramHash
  cnonce : Bytes
  authMessage : Bytes
  clientProof : Option Bytes
  serverSignature : Option Bytes
  password : Bytes
  step : Int
  deriving DecidableEq, Repr

/-- The buffers are left without contents where this fails. -/
def jabberScramCalcProofs (data : JabberScramData) (salt : Bytes) (iterations : Nat) :
    JabberScramData × Bool :=
  match jabberScramHi prims data.hash data.password salt iterations with
  | none => ({ data with clientProof := none, serverSignature := none }, false)
  | some saltedPassword =>
    let clientKey := hmac prims data.hash saltedPassword (ascii "Client Key")
    let serverKey := hmac prims data.hash saltedPassword (ascii "Server Key")
    let storedKey := hash prims data.hash clientKey
    -- `hmac()` takes the message up to its NUL
    let message := cString data.authMessage
    let clientSignature := hmac prims data.hash storedKey message
    let serverSignature := hmac prims data.hash serverKey message
    ({ data with
        clientProof := some (xorBytes clientKey clientSignature)
        serverSignature := some serverSignature }, true)

/-- `g_strsplit(text, ",", -1)`, whose vector is empty for an empty text. -/
def strsplitCommas (text : Bytes) : List Bytes := if text = [] then [] else text.splitOn 44

/-- What follows `letter` and an equals sign at the start of a token. -/
def fieldOf (letter : UInt8) : Bytes → Option Bytes
  | first :: 61 :: value => if first = letter then some value else none
  | _ => none

def isDigit (byte : UInt8) : Bool := 48 ≤ byte && byte ≤ 57

/-- `guint iterations = strtoul(text, NULL, 10)` -/
def countOf (text : Bytes) : Nat := (scanUlong 10 text).getD 0 % 2 ^ 32

structure ServerStep1 where
  nonce : Bytes
  salt : Bytes
  iterations : Nat

def parseServerStep1 (data : JabberScramData) (challenge : Bytes) : Option (Option ServerStep1) :=
  let tokens := strsplitCommas challenge
  tokens[0]?.bind fun token =>
    match fieldOf 114 token with
    | none => some none
    | some nonce =>
      if !data.cnonce.isPrefixOf nonce then some none
      else
        tokens[1]?.bind fun token =>
          match (fieldOf 115 token).bind prims.base64Decode with
          | none => some none
          | some salt =>
            if salt.headD 0 = 0 then some none
            else
              tokens[2]?.bind fun token =>
                match fieldOf 105 token with
                | none => some none
                | some count =>
                  if count = [] ∨ !count.all isDigit then some none
                  else some (some ⟨nonce, salt, countOf count⟩)

def parseServerStep2 (challenge : Bytes) : Option (Option Bytes) :=
  (strsplitCommas challenge)[0]?.bind fun token =>
    match fieldOf 118 token with
    | none => some none
    | some verifier => some (if verifier = [] then none else some verifier)

/-- The data after the call, what it returns and `*out`. -/
def jabberScramFeedParser (data : JabberScramData) (input : Bytes) :
    Option (JabberScramData × Bool × Option Bytes) :=
  let data := { data with authMessage := data.authMessage ++ ascii "," ++ input }
  if data.step = 1 then
    (parseServerStep1 prims data input).bind fun
      | none => some (data, false, none)
      | some parsed =>
        let finalBare := ascii "c=biws,r=" ++ parsed.nonce
        let extended := { data with authMessage := data.authMessage ++ ascii "," ++ finalBare }
        let (data, calculated) :=
          jabberScramCalcProofs prims extended parsed.salt parsed.iterations
        match calculated, data.clientProof with
        | true, some proof =>
          some (data, true, some (finalBare ++ ascii ",p=" ++ prims.base64Encode proof))
        | _, _ => some (data, false, none)
  else if data.step = 2 then
    (parseServerStep2 input).bind fun
      | none => some (data, false, none)
      | some encServerSig =>
        match prims.base64Decode encServerSig with
        | none => some (data, false, none)
        | some serverSig =>
          data.serverSignature.bind fun signature =>
            some (data, serverSig == signature, none)
  else some (data, false, none)

inductive JabberSaslState
  | ok
  | fail
  | continue
  deriving DecidableEq, Repr

inductive Reply
  | auth (mechanism : Bytes) (data : Bytes)
  | response (data : Option Bytes)
  | abort
  deriving DecidableEq, Repr

def scramSha1Mech : Bytes := ascii "SCRAM-SHA-1"

/-- `purple_strreplace` of one character. -/
def replaceChar (char : UInt8) (replacement : Bytes) (text : Bytes) : Bytes :=
  text.flatMap fun byte => if byte = char then replacement else [byte]

def escapeUsername (input : Bytes) : Bytes :=
  replaceChar 44 (ascii "=2C") (replaceChar 61 (ascii "=3D") input)

/-- The account's user name and password, and the eight bytes of `cnonce`. -/
structure Account where
  node : Bytes
  password : Bytes
  random : Bytes

def scramStart (account : Account) : Option (Except String (JabberScramData × Reply)) :=
  match prims.saslprep account.node with
  | none => some (.error "Unable to canonicalize username")
  | some preppedNode =>
    match prims.saslprep account.password with
    | none => some (.error "Unable to canonicalize password")
    | some preppedPass =>
      (mechToHash scramSha1Mech).bind fun hash =>
        let cnonce := prims.base64Encode account.random
        let authMessage :=
          ascii "n=" ++ escapeUsername preppedNode ++ ascii ",r=" ++ cnonce
        let data :=
          { hash, cnonce, authMessage, clientProof := none, serverSignature := none,
            password := preppedPass, step := 1 }
        some (.ok (data,
          .auth scramSha1Mech (prims.base64Encode (ascii "n,," ++ authMessage))))

/-- The decoded contents of a stanza, unless they are missing or hold a NUL. -/
def decoded (encIn : Bytes) : Option Bytes :=
  (prims.base64Decode encIn).filter fun text => text.length == (cString text).length

structure Handled where
  data : JabberScramData
  state : JabberSaslState
  reply : Option Reply
  error : Option String

def challengeFailed (data : JabberScramData) (error : String) : Handled :=
  ⟨{ data with step := -1 }, .fail, some .abort, some error⟩

def scramHandleChallenge (data : JabberScramData) (challenge : Option Bytes) : Option Handled :=
  match challenge.filter (· ≠ []) with
  | none => some (challengeFailed data "Invalid challenge from server")
  | some encIn =>
    match decoded prims encIn with
    | none => some (challengeFailed data "Malicious challenge from server")
    | some decIn =>
      (jabberScramFeedParser prims data decIn).bind fun (data, fed, decOut) =>
        if !fed then some (challengeFailed data "Invalid challenge from server")
        else
          some ⟨{ data with step := data.step + 1 }, .continue,
            some (.response (decOut.map prims.base64Encode)), none⟩

/-- A failure here leaves `step` as it is. -/
def successFailed (data : JabberScramData) (error : String) : Handled :=
  ⟨data, .fail, none, some error⟩

def scramHandleSuccess (data : JabberScramData) (packet : Option Bytes) : Option Handled :=
  if data.step = 3 then some ⟨data, .ok, none, none⟩
  else
    match packet.filter (· ≠ []) with
    | none => some (successFailed data "Invalid challenge from server")
    | some encIn =>
      if data.step ≠ 2 then some (successFailed data "Unexpected response from server")
      else
        match decoded prims encIn with
        | none => some (successFailed data "Malicious challenge from server")
        | some decIn =>
          (jabberScramFeedParser prims data decIn).bind fun (data, fed, decOut) =>
            if !fed ∨ decOut.isSome then
              some (successFailed data "Invalid challenge from server")
            else some ⟨data, .ok, none, none⟩

inductive Stanza
  | challenge (data : Option Bytes)
  | success (data : Option Bytes)
  deriving DecidableEq, Repr

def Stanza.data : Stanza → Option Bytes
  | .challenge data => data
  | .success data => data

def handle (data : JabberScramData) : Stanza → Option Handled
  | .challenge contents => scramHandleChallenge prims data contents
  | .success contents => scramHandleSuccess prims data contents

/-- The mechanism data with the stanzas it was given and the contents it answered. -/
structure Exchange where
  data : JabberScramData
  received : List Stanza
  responses : List Bytes

def responseData : Option Reply → List Bytes
  | some (.response (some data)) => [data]
  | _ => []

def deliver (exchange : Exchange) (stanza : Stanza) : Option Exchange :=
  (handle prims exchange.data stanza).map fun handled =>
    { data := handled.data
      received := exchange.received ++ [stanza]
      responses := exchange.responses ++ responseData handled.reply }

end Purple.Jabber.Scram
