/-
What a SCRAM exchange proves to the client.

The formulas are those of the protocol, over the iteration count as it stands
in the server's message; the client keeps that count in 32 bits.  The invariant
says, for each value of `step`, what has been agreed and what has been sent.
-/

import Mathlib.Data.List.TakeWhile
import Mathlib.Data.Vector.Defs
import Purple.Jabber.Scram
import Purple.PartialRun

namespace Purple.Jabber.Scram

open List hiding Vector
open Option CString PartialRun

variable (prims : Primitives)

/-! ### The formulas of the protocol -/

/-- `U(round + 1)`. -/
def hiRound (hash : JabberScramHash) (str salt : Bytes) : Nat → Bytes
  | 0 => hmac prims hash str (salt ++ [0, 0, 0, 1])
  | round + 1 => hmac prims hash str (hiRound hash str salt round)

/-- `Hi(str, salt, count)`: the exclusive or of the first `count` rounds. -/
def hi (hash : JabberScramHash) (str salt : Bytes) : Nat → Bytes
  | 0 => List.replicate hash.size 0
  | count + 1 => xorBytes (hi hash str salt count) (hiRound prims hash str salt count)

def decimalValue (digits : Bytes) : Nat :=
  digits.foldl (fun value byte => value * 10 + (byte.toNat - 48)) 0

structure Negotiation where
  message : Bytes
  nonce : Bytes
  salt : Bytes
  count : Nat

/-- The message is `r=` nonce `,s=` salt `,i=` count, with or without extensions. -/
def Negotiation.Stated (negotiation : Negotiation) : Prop :=
  ∃ encSalt digits extensions,
    strsplitCommas negotiation.message =
      (ascii "r=" ++ negotiation.nonce) :: (ascii "s=" ++ encSalt) ::
        (ascii "i=" ++ digits) :: extensions ∧
    prims.base64Decode encSalt = some negotiation.salt ∧
    digits ≠ [] ∧ digits.all isDigit ∧ decimalValue digits = negotiation.count

structure Identity where
  hash : JabberScramHash
  password : Bytes
  cnonce : Bytes
  firstBare : Bytes
  deriving DecidableEq, Repr

namespace Negotiation

variable (identity : Identity) (negotiation : Negotiation)

def clientFinalBare : Bytes := ascii "c=biws,r=" ++ negotiation.nonce

def authMessage : Bytes :=
  identity.firstBare ++ ascii "," ++ negotiation.message ++ ascii "," ++
    negotiation.clientFinalBare

def saltedPassword : Bytes :=
  hi prims identity.hash identity.password negotiation.salt negotiation.count

def clientKey : Bytes :=
  hmac prims identity.hash (negotiation.saltedPassword prims identity) (ascii "Client Key")

def clientProof : Bytes :=
  xorBytes (negotiation.clientKey prims identity)
    (hmac prims identity.hash (hash prims identity.hash (negotiation.clientKey prims identity))
      (negotiation.authMessage identity))

def clientFinal : Bytes :=
  negotiation.clientFinalBare ++ ascii ",p=" ++
    prims.base64Encode (negotiation.clientProof prims identity)

def serverSignature : Bytes :=
  hmac prims identity.hash
    (hmac prims identity.hash (negotiation.saltedPassword prims identity) (ascii "Server Key"))
    (negotiation.authMessage identity)

end Negotiation

def Stanza.isChallenge : Stanza → Bool
  | .challenge _ => true
  | .success _ => false

/-- The stanza's contents decode to `text`. -/
def Carries (stanza : Stanza) (text : Bytes) : Prop :=
  ∃ encIn, stanza.data = some encIn ∧ decoded prims encIn = some text

/-- `text` is a verifier message whose verifier decodes to `signature`. -/
def Verifies (signature text : Bytes) : Prop :=
  ∃ verifier, (strsplitCommas text)[0]? = some (ascii "v=" ++ verifier) ∧
    prims.base64Decode verifier = some signature

/-- The server's first message is that of the first challenge, its nonce extends the
client's, and the one message sent carries the proof. -/
structure Agreed (identity : Identity) (received : List Stanza) (responses : List Bytes)
    (negotiation : Negotiation) : Prop where
  stated : negotiation.Stated prims
  supplied : ∃ stanza, received.find? Stanza.isChallenge = some stanza ∧
    Carries prims stanza negotiation.message
  nonce : identity.cnonce <+: negotiation.nonce
  answered : responses = [prims.base64Encode (negotiation.clientFinal prims identity)]

def Authenticated (identity : Identity) (received : List Stanza) (responses : List Bytes) :
    Prop :=
  ∃ negotiation, Agreed prims identity received responses negotiation ∧
    ∃ stanza ∈ received, ∃ text, Carries prims stanza text ∧
      Verifies prims (negotiation.serverSignature prims identity) text

/-- Before the client has answered, a challenge states a count that fits in a `guint`. -/
def CountFits (exchange : Exchange) (stanza : Stanza) : Prop :=
  exchange.data.step = 1 → stanza.isChallenge →
    ∀ text digits, Carries prims stanza text →
      (strsplitCommas text)[2]? = some (ascii "i=" ++ digits) → digits.all isDigit →
        decimalValue digits < 2 ^ 32

variable {prims}

theorem xorBytes_zeros (bytes : Bytes) :
    xorBytes (List.replicate bytes.length 0) bytes = bytes := by
  induction bytes with
  | nil => rfl
  | cons byte rest ih =>
    change (0 ^^^ byte) :: xorBytes (List.replicate rest.length 0) rest = byte :: rest
    rw [ih, UInt8.zero_xor]

theorem hiRound_length (hash : JabberScramHash) (str salt : Bytes) (round : Nat) :
    (hiRound prims hash str salt round).length = hash.size := by
  cases round with
  | zero => exact Vector.length_toList
  | succ round => exact Vector.length_toList

theorem hiRounds_eq (hash : JabberScramHash) (str salt : Bytes) (rounds done : Nat) :
    hiRounds prims hash str rounds (hiRound prims hash str salt done)
        (hi prims hash str salt (done + 1)) =
      hi prims hash str salt (done + 1 + rounds) := by
  induction rounds generalizing done with
  | zero => rfl
  | succ rounds ih =>
    have shifted : done + 1 + (rounds + 1) = done + 1 + 1 + rounds := by omega
    rw [shifted]
    exact ih (done + 1)

theorem jabberScramHi_eq {hash : JabberScramHash} {str salt result : Bytes} {iterations : Nat}
    (computed : jabberScramHi prims hash str salt iterations = some result) :
    result = hi prims hash str salt iterations := by
  rw [jabberScramHi] at computed
  split at computed
  · cases computed
  · rename_i usable
    obtain ⟨rounds, rfl⟩ : ∃ rounds, iterations = rounds + 1 :=
      ⟨iterations - 1, by omega⟩
    have first : hi prims hash str salt 1 = hiRound prims hash str salt 0 := by
      have zeros := xorBytes_zeros (hiRound prims hash str salt 0)
      rw [hiRound_length] at zeros
      exact zeros
    cases computed
    have unrolled := @hiRounds_eq prims hash str salt rounds 0
    rw [first] at unrolled
    rw [Nat.add_comm rounds 1, ← Nat.zero_add 1, ← unrolled, Nat.zero_add, Nat.add_sub_cancel_left]
    rfl

theorem digitValue_digit {byte : UInt8} (digit : isDigit byte) :
    digitValue 10 byte = some (byte.toNat - 48) := by
  rw [isDigit, Bool.and_eq_true, decide_eq_true_iff, decide_eq_true_iff] at digit
  have low : 48 ≤ byte.toNat := digit.1
  have high : byte.toNat ≤ 57 := digit.2
  simp only [digitValue, if_pos digit]
  rw [filter_some, if_pos (decide_eq_true (by omega))]

theorem scanDigits_digits {digits : Bytes} (valid : digits.all isDigit) (value : Nat) :
    scanDigits 10 (some value) digits =
      some (digits.foldl (fun value byte => value * 10 + (byte.toNat - 48)) value) := by
  induction digits generalizing value with
  | nil => rfl
  | cons byte rest ih =>
    rw [all_cons, Bool.and_eq_true] at valid
    rw [scanDigits, digitValue_digit valid.1]
    exact ih valid.2 _

theorem countOf_eq {digits : Bytes} (stated : digits ≠ []) (valid : digits.all isDigit)
    (fits : decimalValue digits < 2 ^ 32) : countOf digits = decimalValue digits := by
  obtain ⟨byte, rest, rfl⟩ := exists_cons_of_ne_nil stated
  have valid' := valid
  rw [all_cons, Bool.and_eq_true] at valid
  have digit := valid.1
  rw [isDigit, Bool.and_eq_true, decide_eq_true_iff, decide_eq_true_iff] at digit
  have low : 48 ≤ byte.toNat := digit.1
  have high : byte.toNat ≤ 57 := digit.2
  have differs (other : UInt8) (outside : other.toNat < 48) : byte ≠ other := by
    rintro rfl
    omega
  have blank : isSpace byte = false := by
    rw [isSpace, Bool.or_eq_false_iff]
    refine ⟨beq_eq_false_iff_ne.mpr (differs 32 (by decide)), ?_⟩
    rw [Bool.and_eq_false_iff]
    right
    rw [decide_eq_false_iff_not]
    intro small
    have smaller : byte.toNat ≤ 13 := small
    omega
  have unsigned : stripSign (byte :: rest) = (false, byte :: rest) := by
    unfold stripSign
    split
    · rename_i same
      exact absurd (List.cons.inj same).1 (differs 45 (by decide))
    · rename_i same
      exact absurd (List.cons.inj same).1 (differs 43 (by decide))
    · rfl
  have scanned : scanDigits 10 none (byte :: rest) = some (decimalValue (byte :: rest)) := by
    rw [scanDigits, digitValue_digit valid.1]
    exact scanDigits_digits valid.2 _
  have read : scanUlong 10 (byte :: rest) = some (decimalValue (byte :: rest)) := by
    simp only [scanUlong, dropWhile_cons, blank, Bool.false_eq_true, if_false, unsigned]
    rw [if_neg (by decide), scanned, map_some, if_neg]
    unfold ulongMax
    omega
  rw [countOf, read]
  exact Nat.mod_eq_of_lt fits

theorem decoded_clean {encIn text : Bytes} (carried : decoded prims encIn = some text) :
    0 ∉ text := by
  obtain ⟨_, whole⟩ := filter_eq_some_iff.mp carried
  have same : cString text = text :=
    (cString_initial text).eq_of_length (beq_iff_eq.mp whole).symm
  rw [cString, takeWhile_eq_self_iff] at same
  intro member
  exact bne_iff_ne.mp (same 0 member) rfl

theorem mem_of_mem_splitOn {separator byte : UInt8} {text token : Bytes}
    (split : token ∈ text.splitOn separator) (inside : byte ∈ token) : byte ∈ text := by
  induction text generalizing token with
  | nil =>
    rw [splitOn_nil, mem_singleton] at split
    subst split
    cases inside
  | cons first rest ih =>
    rw [splitOn_cons_eq_if_modifyHead] at split
    split at split
    · obtain rfl | later := mem_cons.mp split
      · cases inside
      · exact mem_cons_of_mem first (ih later inside)
    · obtain ⟨head, tail, tokens⟩ :=
        exists_cons_of_ne_nil (splitOn_ne_nil separator rest)
      rw [tokens, modifyHead_cons] at split
      obtain rfl | later := mem_cons.mp split
      · obtain rfl | further := mem_cons.mp inside
        · exact mem_cons_self
        · exact mem_cons_of_mem first
            (ih (tokens ▸ mem_cons_self) further)
      · exact mem_cons_of_mem first
          (ih (tokens ▸ mem_cons_of_mem head later) inside)

theorem mem_of_mem_strsplitCommas {byte : UInt8} {text token : Bytes}
    (split : token ∈ strsplitCommas text) (inside : byte ∈ token) : byte ∈ text := by
  rw [strsplitCommas] at split
  split at split
  · cases split
  · exact mem_of_mem_splitOn split inside

theorem fieldOf_eq {letter : UInt8} {token value : Bytes}
    (read : fieldOf letter token = some value) : token = letter :: 61 :: value := by
  unfold fieldOf at read
  split at read
  · split at read
    · rename_i same
      cases read
      rw [same]
    · cases read
  · cases read

theorem parseServerStep1_stated {data : JabberScramData} {challenge : Bytes}
    {parsed : ServerStep1} (accepted : parseServerStep1 prims data challenge = some (some parsed)) :
    ∃ digits, (strsplitCommas challenge)[2]? = some (ascii "i=" ++ digits) ∧
      digits ≠ [] ∧ digits.all isDigit ∧ parsed.iterations = countOf digits ∧
      Negotiation.Stated prims ⟨challenge, parsed.nonce, parsed.salt, decimalValue digits⟩ ∧
      data.cnonce <+: parsed.nonce := by
  obtain ⟨first, at0, accepted⟩ := bind_eq_some_iff.mp accepted
  cases read0 : fieldOf 114 first with
  | none => simp only [read0, Option.some.injEq, reduceCtorEq] at accepted
  | some nonce =>
    simp only [read0] at accepted
    split at accepted
    · cases accepted
    · rename_i extends'
      obtain ⟨second, at1, accepted⟩ := bind_eq_some_iff.mp accepted
      split at accepted
      · cases accepted
      · rename_i salt read1
        split at accepted
        · cases accepted
        · obtain ⟨third, at2, accepted⟩ := bind_eq_some_iff.mp accepted
          cases read2 : fieldOf 105 third with
          | none => simp only [read2, Option.some.injEq, reduceCtorEq] at accepted
          | some digits =>
            simp only [read2] at accepted
            split at accepted
            · cases accepted
            · rename_i valid
              cases accepted
              obtain ⟨encSalt, readSalt, decodedSalt⟩ := bind_eq_some_iff.mp read1
              rw [not_or, Bool.not_eq_true', Bool.not_eq_false] at valid
              rw [fieldOf_eq read0] at at0
              rw [fieldOf_eq readSalt] at at1
              rw [fieldOf_eq read2] at at2
              refine ⟨digits, at2, valid.1, valid.2, rfl,
                ⟨encSalt, digits, (strsplitCommas challenge).drop 3, ?_, decodedSalt, valid.1,
                  valid.2, rfl⟩, ?_⟩
              · -- the three tokens are the front of the vector
                match tokens : strsplitCommas challenge with
                | [] => rw [tokens] at at0; cases at0
                | [_] => rw [tokens] at at1; cases at1
                | [_, _] => rw [tokens] at at2; cases at2
                | _ :: _ :: _ :: more =>
                  rw [tokens] at at0 at1 at2
                  cases at0
                  cases at1
                  cases at2
                  rfl
              · rw [Bool.not_eq_true, Bool.not_eq_false'] at extends'
                exact isPrefixOf_iff_prefix.mp extends'

theorem parseServerStep2_stated {challenge verifier : Bytes}
    (accepted : parseServerStep2 challenge = some (some verifier)) :
    (strsplitCommas challenge)[0]? = some (ascii "v=" ++ verifier) := by
  obtain ⟨token, first, accepted⟩ := bind_eq_some_iff.mp accepted
  cases read : fieldOf 118 token with
  | none => simp only [read, Option.some.injEq, reduceCtorEq] at accepted
  | some value =>
    simp only [read] at accepted
    split at accepted
    · cases accepted
    · cases accepted
      rw [first, fieldOf_eq read]
      rfl

/-! ### One message -/

section Message

variable {identity : Identity} {data after : JabberScramData} {input : Bytes}
  {fed : Bool} {out : Option Bytes}

structure Belongs (identity : Identity) (data : JabberScramData) : Prop where
  hash : data.hash = identity.hash
  password : data.password = identity.password
  cnonce : data.cnonce = identity.cnonce

theorem jabberScramCalcProofs_of (belongs : Belongs identity data) {negotiation : Negotiation}
    (message : data.authMessage = negotiation.authMessage identity)
    (clean : 0 ∉ negotiation.authMessage identity)
    (calculated : jabberScramCalcProofs prims data negotiation.salt negotiation.count =
      (after, true)) :
    after = { data with
      clientProof := some (negotiation.clientProof prims identity)
      serverSignature := some (negotiation.serverSignature prims identity) } := by
  rw [jabberScramCalcProofs] at calculated
  split at calculated
  · cases calculated
  · rename_i saltedPassword computed
    have salted := jabberScramHi_eq computed
    obtain ⟨rfl, _⟩ := Prod.mk.inj calculated
    rw [message, cString_clean clean, salted, belongs.hash, belongs.password]
    rfl

/-- The first message: what is fed is the server's first message, and the answer is the
client's final one. -/
theorem jabberScramFeedParser_first (belongs : Belongs identity data) (at1 : data.step = 1)
    (untouched : data.authMessage = identity.firstBare) (clean : 0 ∉ identity.firstBare)
    (inputClean : 0 ∉ input)
    (fits : ∀ digits, (strsplitCommas input)[2]? = some (ascii "i=" ++ digits) →
      digits.all isDigit → decimalValue digits < 2 ^ 32)
    (read : jabberScramFeedParser prims data input = some (after, true, out)) :
    ∃ negotiation : Negotiation, negotiation.message = input ∧ negotiation.Stated prims ∧
      identity.cnonce <+: negotiation.nonce ∧
      out = some (negotiation.clientFinal prims identity) ∧ Belongs identity after ∧
      after.step = 1 ∧ after.serverSignature = some (negotiation.serverSignature prims identity) := by
  rw [jabberScramFeedParser, if_pos at1] at read
  obtain ⟨result, parsed, read⟩ := bind_eq_some_iff.mp read
  cases result with
  | none => cases read
  | some step1 =>
    obtain ⟨digits, third, stated, valid, count, agreed, extended⟩ :=
      parseServerStep1_stated parsed
    rw [countOf_eq stated valid (fits digits third valid)] at count
    let negotiation : Negotiation :=
      ⟨input, step1.nonce, step1.salt, decimalValue digits⟩
    have nonceClean : 0 ∉ step1.nonce := by
      intro nul
      obtain ⟨_, _, _, tokens, _⟩ := agreed
      apply inputClean
      refine mem_of_mem_strsplitCommas (tokens ▸ mem_cons_self) ?_
      exact mem_append_right _ nul
    have messageClean : 0 ∉ negotiation.authMessage identity := by
      have comma : 0 ∉ ascii "," := by decide
      have final : 0 ∉ ascii "c=biws,r=" := by decide
      simp only [Negotiation.authMessage, Negotiation.clientFinalBare, mem_append, not_or]
      exact ⟨⟨⟨⟨clean, comma⟩, inputClean⟩, comma⟩, final, nonceClean⟩
    simp only [count] at read
    cases proofs : jabberScramCalcProofs prims
        { data with authMessage := negotiation.authMessage identity }
        negotiation.salt negotiation.count with
    | mk calculatedData calculated =>
      have same : { data with
          authMessage := data.authMessage ++ ascii "," ++ input ++ ascii "," ++
            (ascii "c=biws,r=" ++ step1.nonce) } =
          { data with authMessage := negotiation.authMessage identity } := by
        rw [untouched]
        rfl
      simp only [same] at read
      have asked : jabberScramCalcProofs prims
          { data with authMessage := negotiation.authMessage identity } step1.salt
          (decimalValue digits) = (calculatedData, calculated) := proofs
      rw [asked] at read
      cases calculated with
      | false => cases read
      | true =>
        have extendedBelongs : Belongs identity
            { data with authMessage := negotiation.authMessage identity } :=
          ⟨belongs.hash, belongs.password, belongs.cnonce⟩
        have values := jabberScramCalcProofs_of extendedBelongs rfl messageClean proofs
        subst values
        cases read
        exact ⟨negotiation, rfl, agreed, belongs.cnonce ▸ extended, rfl,
          ⟨belongs.hash, belongs.password, belongs.cnonce⟩, at1, rfl⟩

theorem jabberScramFeedParser_second (at2 : data.step = 2)
    (read : jabberScramFeedParser prims data input = some (after, fed, out)) :
    out = none ∧ after = { data with authMessage := data.authMessage ++ ascii "," ++ input } ∧
      (fed = true → ∃ signature, data.serverSignature = some signature ∧
        Verifies prims signature input) := by
  rw [jabberScramFeedParser, if_neg (by rw [at2]; decide), if_pos at2] at read
  obtain ⟨result, parsed, read⟩ := bind_eq_some_iff.mp read
  cases result with
  | none =>
    cases read
    exact ⟨rfl, rfl, fun impossible => nomatch impossible⟩
  | some verifier =>
    simp only at read
    split at read
    · cases read
      exact ⟨rfl, rfl, fun impossible => nomatch impossible⟩
    · rename_i serverSig decodedSig
      obtain ⟨signature, calculated, read⟩ := bind_eq_some_iff.mp read
      cases read
      refine ⟨rfl, rfl, fun equal => ⟨signature, calculated, verifier,
        parseServerStep2_stated parsed, ?_⟩⟩
      rw [← beq_iff_eq.mp equal]
      exact decodedSig

theorem jabberScramFeedParser_other (not1 : data.step ≠ 1) (not2 : data.step ≠ 2)
    (read : jabberScramFeedParser prims data input = some (after, fed, out)) : fed = false := by
  rw [jabberScramFeedParser, if_neg not1, if_neg not2] at read
  cases read
  rfl

end Message

/-! ### Exchanges -/

section Exchanges

variable {identity : Identity} {exchange next : Exchange} {received : List Stanza}
  {responses : List Bytes} {stanza : Stanza}

/-- What `step` says about the exchange.  A failed challenge is -1 and stays so. -/
inductive Progress (prims : Primitives) (identity : Identity) (received : List Stanza)
    (responses : List Bytes) (data : JabberScramData) : Prop
  | started (at1 : data.step = 1) (untouched : data.authMessage = identity.firstBare)
      (unchallenged : received.find? Stanza.isChallenge = none) (silent : responses = [])
  | answered (at2 : data.step = 2) (negotiation : Negotiation)
      (agreed : Agreed prims identity received responses negotiation)
      (signature : data.serverSignature = some (negotiation.serverSignature prims identity))
  | verified (at3 : data.step = 3)
      (authenticated : Authenticated prims identity received responses)
  | failed (past : data.step = -1)

structure Faithful (prims : Primitives) (identity : Identity) (exchange : Exchange) : Prop where
  belongs : Belongs identity exchange.data
  progress : Progress prims identity exchange.received exchange.responses exchange.data

theorem Agreed.later {negotiation : Negotiation}
    (agreed : Agreed prims identity received responses negotiation) (more : List Stanza) :
    Agreed prims identity (received ++ more) responses negotiation where
  stated := agreed.stated
  nonce := agreed.nonce
  answered := agreed.answered
  supplied := by
    obtain ⟨first, found, carries⟩ := agreed.supplied
    exact ⟨first, by rw [find?_append, found]; rfl, carries⟩

theorem Authenticated.later (authenticated : Authenticated prims identity received responses)
    (more : List Stanza) : Authenticated prims identity (received ++ more) responses := by
  obtain ⟨negotiation, agreed, verifier, member, rest⟩ := authenticated
  exact ⟨negotiation, agreed.later more, verifier, mem_append_left more member, rest⟩

theorem Agreed.verify {negotiation : Negotiation}
    (agreed : Agreed prims identity received responses negotiation) {text : Bytes}
    (carries : Carries prims stanza text)
    (verifies : Verifies prims (negotiation.serverSignature prims identity) text) :
    Authenticated prims identity (received ++ [stanza]) responses :=
  ⟨negotiation, agreed.later [stanza], stanza,
    mem_append_right received mem_cons_self, text, carries, verifies⟩

theorem jabberScramCalcProofs_belongs {data : JabberScramData} (belongs : Belongs identity data)
    (salt : Bytes) (iterations : Nat) :
    Belongs identity (jabberScramCalcProofs prims data salt iterations).1 := by
  rw [jabberScramCalcProofs]
  split
  · exact ⟨belongs.hash, belongs.password, belongs.cnonce⟩
  · exact ⟨belongs.hash, belongs.password, belongs.cnonce⟩

theorem jabberScramFeedParser_belongs {data after : JabberScramData} {input : Bytes} {fed : Bool}
    {out : Option Bytes} (belongs : Belongs identity data)
    (read : jabberScramFeedParser prims data input = some (after, fed, out)) :
    Belongs identity after := by
  have extended (text : Bytes) : Belongs identity { data with authMessage := text } :=
    ⟨belongs.hash, belongs.password, belongs.cnonce⟩
  simp only [jabberScramFeedParser] at read
  split at read
  · obtain ⟨result, parsed, read⟩ := bind_eq_some_iff.mp read
    cases result with
    | none =>
      cases read
      exact extended _
    | some step1 =>
      simp only at read
      split at read
      · rename_i calculated _ _ _
        cases read
        exact jabberScramCalcProofs_belongs (extended _) _ _
      · cases read
        exact jabberScramCalcProofs_belongs (extended _) _ _
  · split at read
    · obtain ⟨result, parsed, read⟩ := bind_eq_some_iff.mp read
      cases result with
      | none =>
        cases read
        exact extended _
      | some verifier =>
        simp only at read
        split at read
        · cases read
          exact extended _
        · obtain ⟨signature, calculated, read⟩ := bind_eq_some_iff.mp read
          cases read
          exact extended _
    · cases read
      exact extended _

theorem Progress.refused {data : JabberScramData}
    (progress : Progress prims identity received responses data) (packet : Option Bytes) :
    Progress prims identity (received ++ [.success packet]) responses data := by
  cases progress with
  | started at1 untouched unchallenged silent =>
    refine .started at1 untouched ?_ silent
    rw [find?_append, unchallenged]
    rfl
  | answered at2 negotiation agreed signature =>
    exact .answered at2 negotiation (agreed.later _) signature
  | verified at3 authenticated => exact .verified at3 (authenticated.later _)
  | failed past => exact .failed past

theorem Progress.negotiated {data : JabberScramData}
    (progress : Progress prims identity received responses data) (at2 : data.step = 2) :
    ∃ negotiation, Agreed prims identity received responses negotiation ∧
      data.serverSignature = some (negotiation.serverSignature prims identity) := by
  cases progress with
  | started at1 => rw [at1] at at2; exact absurd at2 (by decide)
  | answered _ negotiation agreed signature => exact ⟨negotiation, agreed, signature⟩
  | verified at3 => rw [at3] at at2; exact absurd at2 (by decide)
  | failed past => rw [past] at at2; exact absurd at2 (by decide)

theorem scramHandleChallenge_faithful (clean : 0 ∉ identity.firstBare)
    (faithful : Faithful prims identity exchange) {contents : Option Bytes}
    (fits : CountFits prims exchange (.challenge contents)) {handled : Handled}
    (handles : scramHandleChallenge prims exchange.data contents = some handled) :
    Faithful prims identity
      { data := handled.data
        received := exchange.received ++ [.challenge contents]
        responses := exchange.responses ++ responseData handled.reply } := by
  have refused {data : JabberScramData} (belongs : Belongs identity data) (error : String)
      (same : some (challengeFailed data error) = some handled) :
      Faithful prims identity
        { data := handled.data
          received := exchange.received ++ [.challenge contents]
          responses := exchange.responses ++ responseData handled.reply } := by
    cases same
    exact ⟨⟨belongs.hash, belongs.password, belongs.cnonce⟩, .failed rfl⟩
  rw [scramHandleChallenge] at handles
  split at handles
  · exact refused faithful.belongs _ handles
  · rename_i encIn present
    split at handles
    · exact refused faithful.belongs _ handles
    · rename_i text decodes
      obtain ⟨⟨after, fed, out⟩, read, handles⟩ := bind_eq_some_iff.mp handles
      have belongs := jabberScramFeedParser_belongs faithful.belongs read
      have contentsEq : contents = some encIn := (filter_eq_some_iff.mp present).1
      have carries : Carries prims (.challenge contents) text := ⟨encIn, contentsEq, decodes⟩
      cases fed with
      | false => exact refused belongs _ handles
      | true =>
        cases handles
        cases faithful.progress with
        | started at1 untouched unchallenged silent =>
          obtain ⟨negotiation, rfl, stated, extended, rfl, kept, stays, signature⟩ :=
            jabberScramFeedParser_first faithful.belongs at1 untouched clean
              (decoded_clean decodes)
              (fun digits third valid => fits at1 rfl _ digits carries third valid) read
          refine ⟨⟨kept.hash, kept.password, kept.cnonce⟩, .answered ?_ negotiation ?_ signature⟩
          · change after.step + 1 = 2
            rw [stays]
            rfl
          · refine ⟨stated, ⟨.challenge contents, ?_, carries⟩, extended, ?_⟩
            · rw [find?_append, unchallenged]
              rfl
            · rw [silent]
              rfl
        | answered at2 negotiation agreed signature =>
          obtain ⟨rfl, rfl, verified⟩ := jabberScramFeedParser_second at2 read
          obtain ⟨expected, calculated, verifies⟩ := verified rfl
          rw [signature, Option.some.injEq] at calculated
          subst calculated
          refine ⟨⟨belongs.hash, belongs.password, belongs.cnonce⟩, .verified ?_ ?_⟩
          · change exchange.data.step + 1 = 3
            rw [at2]
            rfl
          · change Authenticated prims identity _ (exchange.responses ++ [])
            rw [append_nil]
            exact agreed.verify carries verifies
        | verified at3 =>
          cases jabberScramFeedParser_other (by rw [at3]; decide) (by rw [at3]; decide) read
        | failed past =>
          cases jabberScramFeedParser_other (by rw [past]; decide) (by rw [past]; decide) read

theorem scramHandleSuccess_faithful (faithful : Faithful prims identity exchange)
    {packet : Option Bytes} {handled : Handled}
    (handles : scramHandleSuccess prims exchange.data packet = some handled) :
    Faithful prims identity
        { data := handled.data
          received := exchange.received ++ [.success packet]
          responses := exchange.responses ++ responseData handled.reply } ∧
      (handled.state = .ok → Authenticated prims identity
        (exchange.received ++ [.success packet]) exchange.responses) := by
  have refused (error : String) (same : some (successFailed exchange.data error) = some handled) :
      Faithful prims identity
          { data := handled.data
            received := exchange.received ++ [.success packet]
            responses := exchange.responses ++ responseData handled.reply } ∧
        (handled.state = .ok → Authenticated prims identity
          (exchange.received ++ [.success packet]) exchange.responses) := by
    cases same
    refine ⟨⟨faithful.belongs, ?_⟩, fun accepted => nomatch accepted⟩
    change Progress prims identity _ (exchange.responses ++ []) _
    rw [append_nil]
    exact faithful.progress.refused packet
  rw [scramHandleSuccess] at handles
  split at handles
  · rename_i at3
    cases handles
    refine ⟨⟨faithful.belongs, ?_⟩, fun _ => ?_⟩
    · change Progress prims identity _ (exchange.responses ++ []) _
      rw [append_nil]
      exact faithful.progress.refused packet
    · cases faithful.progress with
      | started at1 => rw [at1] at at3; exact absurd at3 (by decide)
      | answered at2 => rw [at2] at at3; exact absurd at3 (by decide)
      | verified _ authenticated => exact authenticated.later _
      | failed past => rw [past] at at3; exact absurd at3 (by decide)
  · split at handles
    · exact refused _ handles
    · rename_i encIn present
      split at handles
      · exact refused _ handles
      · rename_i at2
        rw [not_not] at at2
        split at handles
        · exact refused _ handles
        · rename_i text decodes
          obtain ⟨⟨after, fed, out⟩, read, handles⟩ := bind_eq_some_iff.mp handles
          obtain ⟨rfl, rfl, verified⟩ := jabberScramFeedParser_second at2 read
          obtain ⟨negotiation, agreed, signature⟩ := faithful.progress.negotiated at2
          have kept : Faithful prims identity
              { data := { exchange.data with
                  authMessage := exchange.data.authMessage ++ ascii "," ++ text }
                received := exchange.received ++ [.success packet]
                responses := exchange.responses ++ [] } := by
            rw [append_nil]
            exact ⟨⟨faithful.belongs.hash, faithful.belongs.password, faithful.belongs.cnonce⟩,
              .answered at2 negotiation (agreed.later _) signature⟩
          cases fed with
          | false =>
            cases handles
            exact ⟨kept, fun accepted => nomatch accepted⟩
          | true =>
            cases handles
            refine ⟨kept, fun _ => ?_⟩
            obtain ⟨expected, calculated, verifies⟩ := verified rfl
            rw [signature, Option.some.injEq] at calculated
            subst calculated
            exact agreed.verify
              ⟨encIn, (filter_eq_some_iff.mp present).1, decodes⟩ verifies

theorem deliver_faithful (clean : 0 ∉ identity.firstBare)
    (faithful : Faithful prims identity exchange) (fits : CountFits prims exchange stanza)
    (delivered : deliver prims exchange stanza = some next) : Faithful prims identity next := by
  obtain ⟨handled, handles, rfl⟩ := map_eq_some_iff.mp delivered
  cases stanza with
  | challenge contents => exact scramHandleChallenge_faithful clean faithful fits handles
  | success packet => exact (scramHandleSuccess_faithful faithful handles).1

theorem received_of_run {stanzas : List Stanza} {start last : Exchange}
    (ran : run (deliver prims) start stanzas = some last) :
    last.received = start.received ++ stanzas := by
  induction stanzas generalizing start with
  | nil =>
    cases ran
    rw [append_nil]
  | cons stanza rest ih =>
    obtain ⟨middle, delivered, ran⟩ := bind_eq_some_iff.mp ran
    obtain ⟨handled, _, rfl⟩ := map_eq_some_iff.mp delivered
    rw [ih ran, append_assoc]
    rfl

end Exchanges

def Opened (prims : Primitives) (account : Account) (identity : Identity) (reply : Reply) : Prop :=
  mechToHash scramSha1Mech = some identity.hash ∧
  prims.saslprep account.password = some identity.password ∧
  identity.cnonce = prims.base64Encode account.random ∧
  (∃ preppedNode, prims.saslprep account.node = some preppedNode ∧
    identity.firstBare =
      ascii "n=" ++ escapeUsername preppedNode ++ ascii ",r=" ++ identity.cnonce) ∧
  reply = .auth scramSha1Mech (prims.base64Encode (ascii "n,," ++ identity.firstBare))

theorem replaceChar_clean {text replacement : Bytes} (char : UInt8) (clean : 0 ∉ text)
    (replacementClean : 0 ∉ replacement) : 0 ∉ replaceChar char replacement text := by
  intro nul
  obtain ⟨byte, member, nul⟩ := mem_flatMap.mp nul
  split at nul
  · exact replacementClean nul
  · rw [mem_singleton] at nul
    exact clean (nul ▸ member)

def identityOf (data : JabberScramData) : Identity :=
  ⟨data.hash, data.password, data.cnonce, data.authMessage⟩

theorem scramStart_opened {account : Account} {data : JabberScramData} {reply : Reply}
    (started : scramStart prims account = some (.ok (data, reply))) :
    Opened prims account (identityOf data) reply ∧ 0 ∉ (identityOf data).firstBare ∧
      Faithful prims (identityOf data) ⟨data, [], []⟩ := by
  rw [scramStart] at started
  split at started
  · cases started
  · rename_i preppedNode prepped
    split at started
    · cases started
    · rename_i preppedPass passPrepped
      obtain ⟨hash, found, started⟩ := bind_eq_some_iff.mp started
      cases started
      refine ⟨⟨found, passPrepped, rfl, ⟨preppedNode, prepped, rfl⟩, rfl⟩, ?_,
        ⟨⟨rfl, rfl, rfl⟩, .started rfl rfl rfl rfl⟩⟩
      have escaped : 0 ∉ escapeUsername preppedNode :=
        replaceChar_clean 44 (replaceChar_clean 61 (prims.saslprep_clean _ _ prepped) (by decide))
          (by decide)
      have name : 0 ∉ ascii "n=" := by decide
      have nonce : 0 ∉ ascii ",r=" := by decide
      simp only [identityOf, mem_append, not_or]
      exact ⟨⟨⟨name, escaped⟩, nonce⟩, prims.encode_clean _⟩

/-- A success that is accepted comes from a server that knows the keys, after any stanzas
whose first iteration count fits. -/
theorem success_authenticates {account : Account} {data : JabberScramData} {reply : Reply}
    (started : scramStart prims account = some (.ok (data, reply))) {stanzas : List Stanza}
    (fits : Admitted (deliver prims) (CountFits prims) ⟨data, [], []⟩ stanzas) {before : Exchange}
    (ran : run (deliver prims) ⟨data, [], []⟩ stanzas = some before) {packet : Option Bytes}
    {handled : Handled} (handles : scramHandleSuccess prims before.data packet = some handled)
    (accepted : handled.state = .ok) :
    ∃ identity, Opened prims account identity reply ∧
      Authenticated prims identity (stanzas ++ [.success packet]) before.responses := by
  obtain ⟨opened, clean, faithful⟩ := scramStart_opened started
  have reached : Faithful prims (identityOf data) before :=
    reached_of_run (Faithful prims (identityOf data))
      (fun _ _ _ faithful fits delivered => deliver_faithful clean faithful fits delivered)
      faithful fits ran
  have received := received_of_run ran
  change before.received = stanzas at received
  rw [← received]
  exact ⟨identityOf data, opened, (scramHandleSuccess_faithful reached handles).2 accepted⟩

/-! ### Base64 and two exchanges -/

def base64Char (value : Nat) : UInt8 :=
  if value < 26 then UInt8.ofNat (65 + value) else if value < 52 then UInt8.ofNat (71 + value)
  else if value < 62 then UInt8.ofNat (value - 4) else if value = 62 then 43 else 47

def base64Value (char : UInt8) : Nat :=
  let char := char.toNat
  if char = 43 then 62 else if char = 47 then 63 else if char < 58 then char + 4
  else if char < 91 then char - 65 else char - 71

def base64Encode : Bytes → Bytes
  | first :: second :: third :: rest =>
    let value := (first.toNat * 256 + second.toNat) * 256 + third.toNat
    base64Char (value / 262144) :: base64Char (value / 4096 % 64) ::
      base64Char (value / 64 % 64) :: base64Char (value % 64) :: base64Encode rest
  | [first, second] =>
    let value := (first.toNat * 256 + second.toNat) * 4
    [base64Char (value / 4096), base64Char (value / 64 % 64), base64Char (value % 64), 61]
  | [first] =>
    let value := first.toNat * 16
    [base64Char (value / 64), base64Char (value % 64), 61, 61]
  | [] => []

/-- The quartets of a text; an equals sign ends it. -/
def base64Decode : Bytes → Bytes
  | first :: second :: third :: fourth :: rest =>
    let high := base64Value first * 64 + base64Value second
    if third = 61 then [UInt8.ofNat (high / 16)]
    else
      let middle := high * 64 + base64Value third
      if fourth = 61 then [UInt8.ofNat (middle / 1024), UInt8.ofNat (middle / 4)]
      else
        let value := middle * 64 + base64Value fourth
        UInt8.ofNat (value / 65536) :: UInt8.ofNat (value / 256) :: UInt8.ofNat value ::
          base64Decode rest
  | _ => []

theorem base64Char_ne (value : Nat) : base64Char value ≠ 0 := by
  intro nul
  have toNat := congrArg UInt8.toNat nul
  rw [base64Char] at toNat
  split at toNat
  · rw [UInt8.toNat_ofNat'] at toNat
    change (65 + value) % 256 = 0 at toNat
    omega
  · split at toNat
    · rw [UInt8.toNat_ofNat'] at toNat
      change (71 + value) % 256 = 0 at toNat
      omega
    · split at toNat
      · rw [UInt8.toNat_ofNat'] at toNat
        change (value - 4) % 256 = 0 at toNat
        omega
      · split at toNat <;> exact absurd toNat (by decide)

theorem base64Encode_clean (bytes : Bytes) : 0 ∉ base64Encode bytes := by
  induction bytes using base64Encode.induct with
  | case1 first second third rest ih =>
    rw [base64Encode]
    simp only [mem_cons, not_or]
    exact ⟨(base64Char_ne _).symm, (base64Char_ne _).symm, (base64Char_ne _).symm,
      (base64Char_ne _).symm, ih⟩
  | case2 first second =>
    rw [base64Encode]
    simp only [mem_cons, not_or]
    exact ⟨(base64Char_ne _).symm, (base64Char_ne _).symm, (base64Char_ne _).symm, by decide,
      not_mem_nil⟩
  | case3 first =>
    rw [base64Encode]
    simp only [mem_cons, not_or]
    exact ⟨(base64Char_ne _).symm, (base64Char_ne _).symm, by decide, by decide,
      not_mem_nil⟩
  | case4 => exact not_mem_nil

/-- The primitives over a given HMAC and digest; `jabber_saslprep` keeps ASCII text. -/
def primitivesWith (hmac : (hash : JabberScramHash) → Bytes → Bytes → Vector UInt8 hash.size)
    (digest : (hash : JabberScramHash) → Bytes → Vector UInt8 hash.size) : Primitives :=
  { hmac, digest, base64Encode
    base64Decode := fun text => some (base64Decode text)
    saslprep := fun text => if 0 ∈ text then none else some text
    encode_clean := base64Encode_clean
    saslprep_clean := by
      intro text prepped kept
      split at kept
      · cases kept
      · rename_i clean
        cases kept
        exact clean }

example : base64Decode (base64Encode (ascii "n,,")) = ascii "n,," := by decide

def pencil : Account := ⟨ascii "user", ascii "pencil", [1, 2, 3, 4, 5, 6, 7, 8]⟩

/-- HMAC-SHA-1 on the arguments of the exchange below. -/
def pencilHmac (hash : JabberScramHash) (key message : Bytes) : Vector UInt8 hash.size :=
  let salted : Bytes :=
    [226, 153, 205, 161, 234, 30, 202, 57, 52, 6, 189, 129, 61, 177, 41, 187, 79, 189, 226, 197]
  let first : Bytes :=
    [210, 125, 155, 246, 252, 5, 224, 94, 133, 19, 165, 207, 167, 154, 235, 2, 30, 113, 60, 69]
  let serverKey : Bytes :=
    [194, 38, 98, 201, 149, 235, 210, 33, 73, 48, 229, 229, 107, 152, 215, 49, 239, 40, 134, 57]
  let value : Bytes :=
    if key = ascii "pencil" then
      if message = first then
        [48, 228, 86, 87, 22, 27, 42, 103, 177, 21, 24, 78, 154, 43, 194, 185, 81, 204, 222, 128]
      else first
    else if key = salted then
      if message = ascii "Client Key" then
        [149, 124, 63, 141, 249, 239, 235, 79, 95, 148, 105, 213, 0, 211, 81, 209, 209, 139, 116, 155]
      else serverKey
    else if key = serverKey then
      [174, 117, 166, 234, 183, 170, 87, 251, 204, 55, 122, 74, 202, 52, 81, 31, 233, 70, 185, 27]
    else
      [82, 169, 150, 54, 153, 40, 91, 8, 17, 250, 125, 62, 76, 134, 233, 172, 181, 96, 207, 223]
  Vector.ofFn fun index => value.getD index 0

def pencilDigest (hash : JabberScramHash) (_ : Bytes) : Vector UInt8 hash.size :=
  let storedKey : Bytes :=
    [73, 2, 85, 158, 58, 223, 126, 161, 81, 224, 234, 199, 248, 47, 249, 45, 156, 79, 215, 78]
  Vector.ofFn fun index => storedKey.getD index 0

def pencilPrimitives : Primitives := primitivesWith pencilHmac pencilDigest

def contentsOf (text : String) : Option Bytes := some (base64Encode (ascii text))

def pencilChallenge : Stanza := .challenge (contentsOf "r=AQIDBAUGBwg=XYZ,s=c2FsdA==,i=2")

def pencilData : JabberScramData :=
  { hash := ⟨ascii "-SHA-1", ascii "sha1", 20⟩
    cnonce := ascii "AQIDBAUGBwg="
    authMessage := ascii "n=user,r=AQIDBAUGBwg="
    clientProof := none
    serverSignature := none
    password := ascii "pencil"
    step := 1 }

def pencilReply : Reply :=
  .auth (ascii "SCRAM-SHA-1") (base64Encode (ascii "n,,n=user,r=AQIDBAUGBwg="))

example : (deliver pencilPrimitives ⟨pencilData, [], []⟩ pencilChallenge).map (·.responses) =
    some [ascii "Yz1iaXdzLHI9QVFJREJBVUdCd2c9WFlaLHA9eDlXcHUyREhzRWRPYmhUclRGVzRmV1RydTBRPQ=="] := by
  decide +kernel

theorem pencil_started :
    scramStart pencilPrimitives pencil = some (.ok (pencilData, pencilReply)) := by
  decide +kernel

/-- How an exchange ends with `packet`, and what was answered before it. -/
def endsWith (prims : Primitives) (data : JabberScramData) (stanzas : List Stanza)
    (packet : Option Bytes) : Option (JabberSaslState × List Bytes) :=
  (run (deliver prims) ⟨data, [], []⟩ stanzas).bind fun before =>
    (scramHandleSuccess prims before.data packet).map fun handled =>
      (handled.state, before.responses)

theorem run_of_endsWith {data : JabberScramData} {stanzas : List Stanza} {packet : Option Bytes}
    {state : JabberSaslState} {responses : List Bytes}
    (ends : endsWith prims data stanzas packet = some (state, responses)) :
    ∃ before handled, run (deliver prims) ⟨data, [], []⟩ stanzas = some before ∧
      scramHandleSuccess prims before.data packet = some handled ∧ handled.state = state ∧
      before.responses = responses := by
  obtain ⟨before, ran, ends⟩ := bind_eq_some_iff.mp ends
  obtain ⟨handled, handles, same⟩ := map_eq_some_iff.mp ends
  obtain ⟨stateEq, answered⟩ := Prod.mk.inj same
  exact ⟨before, handled, ran, handles, stateEq, answered⟩

theorem contentsOf_carries
    {hmac : (hash : JabberScramHash) → Bytes → Bytes → Vector UInt8 hash.size}
    {digest : (hash : JabberScramHash) → Bytes → Vector UInt8 hash.size} {stanza : Stanza}
    {text : String} {contents : Bytes} (holds : stanza.data = contentsOf text)
    (carries : Carries (primitivesWith hmac digest) stanza contents) :
    base64Decode (base64Encode (ascii text)) = contents := by
  obtain ⟨encIn, same, decodes⟩ := carries
  rw [holds] at same
  cases same
  exact Option.some.inj (filter_eq_some_iff.mp decodes).1

def pencilVerifier : Option Bytes := contentsOf "v=rnWm6reqV/vMN3pKyjRRH+lGuRs="

def pencilResponse : Bytes :=
  base64Encode (ascii "c=biws,r=AQIDBAUGBwg=XYZ,p=x9Wpu2DHsEdObhTrTFW4fWTru0Q=")

theorem pencil_authenticates :
    ∃ identity, Opened pencilPrimitives pencil identity pencilReply ∧
      Authenticated pencilPrimitives identity [pencilChallenge, .success pencilVerifier]
        [pencilResponse] := by
  have ends : endsWith pencilPrimitives pencilData [pencilChallenge] pencilVerifier =
      some (.ok, [pencilResponse]) := by decide +kernel
  have fits : Admitted (deliver pencilPrimitives) (CountFits pencilPrimitives)
      ⟨pencilData, [], []⟩ [pencilChallenge] := by
    refine ⟨?_, fun _ _ => trivial⟩
    intro _ _ text digits carries third _
    have tokens : (strsplitCommas (base64Decode (base64Encode
        (ascii "r=AQIDBAUGBwg=XYZ,s=c2FsdA==,i=2"))))[2]? = some (ascii "i=" ++ [50]) := by
      decide +kernel
    rw [← contentsOf_carries rfl carries, tokens] at third
    rw [← append_cancel_left (Option.some.inj third)]
    decide
  obtain ⟨before, handled, ran, handles, state, answered⟩ := run_of_endsWith ends
  rw [← answered]
  exact success_authenticates pencil_started fits ran handles state

/-! ### A count of 33 bits -/

/-- A buffer that starts with `value`. -/
def led (size : Nat) (value : UInt8) : Vector UInt8 size :=
  Vector.ofFn fun index => if index.val = 0 then value else 0

/-- The rounds go 1, 2, 3 and around; other messages give back their key. -/
def cyclicHmac (hash : JabberScramHash) (key message : Bytes) : Vector UInt8 hash.size :=
  led hash.size
    (if message.getLast? = some 1 then 1
      else if message.length = hash.size then message.headD 0 % 3 + 1
      else key.headD 0)

def cyclicPrimitives : Primitives :=
  primitivesWith cyclicHmac fun hash data => led hash.size (data.headD 0)

theorem cyclic_started :
    scramStart cyclicPrimitives pencil = some (.ok (pencilData, pencilReply)) := by
  decide +kernel

theorem cyclic_rounds (turns : Nat) :
    hiRound cyclicPrimitives pencilData.hash pencilData.password (ascii "salt") (3 * turns) =
      (led 20 1).toList ∧
    hi cyclicPrimitives pencilData.hash pencilData.password (ascii "salt") (3 * turns) =
      List.replicate 20 0 := by
  induction turns with
  | zero => exact ⟨by decide +kernel, rfl⟩
  | succ turns ih =>
    have three : 3 * (turns + 1) = 3 * turns + 1 + 1 + 1 := by omega
    rw [three]
    constructor
    · simp only [hiRound, ih.1]
      decide +kernel
    · simp only [hi, hiRound, ih.1, ih.2]
      decide +kernel

theorem cyclic_hi (turns : Nat) :
    hi cyclicPrimitives pencilData.hash pencilData.password (ascii "salt") (3 * turns + 1 + 1) =
      (led 20 3).toList := by
  simp only [hi, hiRound, (cyclic_rounds turns).1, (cyclic_rounds turns).2]
  decide +kernel

def overflowText : String := "r=AQIDBAUGBwg=XYZ,s=c2FsdA==,i=4294967297"

def overflowNegotiation : Negotiation :=
  ⟨ascii overflowText, ascii "AQIDBAUGBwg=XYZ", ascii "salt", 4294967297⟩

def overflowVerifier : Option Bytes := contentsOf "v=AQAAAAAAAAAAAAAAAAAAAAAAAAA="

theorem overflow_signature :
    overflowNegotiation.serverSignature cyclicPrimitives (identityOf pencilData) =
      (led 20 3).toList := by
  have salted : overflowNegotiation.saltedPassword cyclicPrimitives (identityOf pencilData) =
      (led 20 3).toList := cyclic_hi 1431655765
  rw [Negotiation.serverSignature, salted]
  decide +kernel

theorem overflow_negotiated {negotiation : Negotiation}
    (stated : negotiation.Stated cyclicPrimitives)
    (message : negotiation.message = ascii overflowText) : negotiation = overflowNegotiation := by
  obtain ⟨encSalt, digits, extensions, tokens, salt, _, _, count⟩ := stated
  have split : strsplitCommas (ascii overflowText) =
      [ascii "r=" ++ ascii "AQIDBAUGBwg=XYZ", ascii "s=" ++ ascii "c2FsdA==",
        ascii "i=" ++ ascii "4294967297"] := by decide +kernel
  rw [message, split] at tokens
  obtain ⟨first, tokens⟩ := List.cons.inj tokens
  obtain ⟨second, tokens⟩ := List.cons.inj tokens
  obtain ⟨third, _⟩ := List.cons.inj tokens
  have nonceEq := append_cancel_left first
  rw [← append_cancel_left second] at salt
  rw [← append_cancel_left third] at count
  have saltEq : negotiation.salt = ascii "salt" := by
    have decodes : cyclicPrimitives.base64Decode (ascii "c2FsdA==") = some (ascii "salt") := by
      decide +kernel
    rw [decodes] at salt
    exact (Option.some.inj salt).symm
  have countEq : negotiation.count = 4294967297 := by
    rw [← count]
    decide +kernel
  obtain ⟨negotiatedMessage, nonce, negotiatedSalt, negotiatedCount⟩ := negotiation
  simp only at message nonceEq saltEq countEq
  rw [message, ← nonceEq, saltEq, countEq]
  rfl

theorem pencil_identity {identity : Identity} {reply : Reply}
    (opened : Opened cyclicPrimitives pencil identity reply) : identity = identityOf pencilData := by
  obtain ⟨hashFound, passPrepped, cnonce, ⟨preppedNode, nodePrepped, firstBare⟩, _⟩ := opened
  have hashes : mechToHash scramSha1Mech = some pencilData.hash := by decide +kernel
  have passwords : cyclicPrimitives.saslprep pencil.password = some pencilData.password := by
    decide +kernel
  have nodes : cyclicPrimitives.saslprep pencil.node = some (ascii "user") := by decide +kernel
  have hash := Option.some.inj (hashes.symm.trans hashFound)
  have password := Option.some.inj (passwords.symm.trans passPrepped)
  have prepped := Option.some.inj (nodes.symm.trans nodePrepped)
  obtain ⟨identityHash, identityPassword, identityCnonce, identityBare⟩ := identity
  simp only at hash password cnonce firstBare
  clear hashFound passPrepped nodePrepped
  subst hash password cnonce prepped firstBare
  decide +kernel

/-- The client computes one round of `Hi` where the server asks for 2^32 + 1. -/
theorem overflowing_not_authenticated :
    ∃ prims account data reply stanzas before packet handled,
      scramStart prims account = some (.ok (data, reply)) ∧
      run (deliver prims) ⟨data, [], []⟩ stanzas = some before ∧
      scramHandleSuccess prims before.data packet = some handled ∧ handled.state = .ok ∧
      ¬ ∃ identity, Opened prims account identity reply ∧
        Authenticated prims identity (stanzas ++ [.success packet]) before.responses := by
  have ends : (endsWith cyclicPrimitives pencilData [.challenge (contentsOf overflowText)]
      overflowVerifier).map Prod.fst = some .ok := by decide +kernel
  obtain ⟨⟨state, responses⟩, ends, accepted⟩ := map_eq_some_iff.mp ends
  obtain ⟨before, handled, ran, handles, stateEq, _⟩ := run_of_endsWith ends
  refine ⟨cyclicPrimitives, pencil, pencilData, pencilReply, _, before, overflowVerifier, handled,
    cyclic_started, ran, handles, stateEq.trans accepted, ?_⟩
  rintro ⟨identity, opened, negotiation, agreed, stanza, member, text, carries, verifier, first,
    decodes⟩
  obtain rfl := pencil_identity opened
  have challenged : base64Decode (base64Encode (ascii overflowText)) = ascii overflowText := by
    decide +kernel
  obtain ⟨server, found, offered⟩ := agreed.supplied
  have serverEq : server.data = contentsOf overflowText := by
    cases found
    rfl
  have negotiated := overflow_negotiated agreed.stated
    ((contentsOf_carries serverEq offered).symm.trans challenged)
  rw [negotiated, overflow_signature] at decodes
  obtain rfl | last := mem_cons.mp member
  · -- the challenge is no verifier
    rw [← contentsOf_carries rfl carries, challenged] at first
    have token : (strsplitCommas (ascii overflowText))[0]? =
        some (114 :: 61 :: ascii "AQIDBAUGBwg=XYZ") := by decide +kernel
    rw [token] at first
    exact absurd (List.cons.inj (Option.some.inj first)).1 (by decide)
  · rw [mem_singleton.mp last] at carries
    rw [← contentsOf_carries rfl carries] at first
    have token : (strsplitCommas (base64Decode (base64Encode
        (ascii "v=AQAAAAAAAAAAAAAAAAAAAAAAAAA="))))[0]? =
        some (ascii "v=" ++ ascii "AQAAAAAAAAAAAAAAAAAAAAAAAAA=") := by decide +kernel
    rw [token] at first
    rw [← append_cancel_left (Option.some.inj first)] at decodes
    have supplied : cyclicPrimitives.base64Decode (ascii "AQAAAAAAAAAAAAAAAAAAAAAAAAA=") ≠
        some (led 20 3).toList := by decide +kernel
    exact supplied decodes

end Purple.Jabber.Scram
