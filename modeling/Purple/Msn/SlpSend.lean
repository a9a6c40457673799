/-
Sending a message of the peer-to-peer protocol in parts, from slplink.c and
slpmsg_part.c, for a message that is not a running file transfer.

A part gets a copy of the message's info.  The length of the part is written to the
message after the copy was taken.
-/

import Purple.Msn.P2p
import Purple.PartialRun

namespace Purple.Msn.SlpSend

open List

/-- `MSN_SBCONN_MAX_SIZE` -/
def msnSbconnMaxSize : Nat := 1202

/-- `cb` tells whether there is an end callback. -/
structure MsnSlpCall where
  sessionId : UInt32
  appId : UInt32
  cb : Bool

/-- `size` is the length of the buffer. -/
structure MsnSlpMessage where
  slpcall : Option MsnSlpCall
  info : MsnP2PInfo
  id : UInt32
  buffer : Bytes
  fits : buffer.length < 2 ^ 64

/-- A message that is being sent.  `parts` are the outstanding parts; `sent` and `acked` are
all parts that were given to the connection and that were acknowledged. -/
structure Sending where
  slpmsg : MsnSlpMessage
  parts : List MsnSlpMessagePart
  sent : List MsnSlpMessagePart
  acked : List MsnSlpMessagePart
  ended : Nat

def content (slpmsg : MsnSlpMessage) : Bytes := if slpmsg.info.isAck then [] else slpmsg.buffer

def realSize (slpmsg : MsnSlpMessage) : Nat :=
  if slpmsg.info.isAck then 0 else slpmsg.buffer.length

def appendPart (sending : Sending) (part : MsnSlpMessagePart) : Sending :=
  { sending with parts := sending.parts ++ [part], sent := sending.sent ++ [part] }

def msnSlplinkSendMsgpart (sending : Sending) : Sending :=
  let slpmsg := sending.slpmsg
  let offset := slpmsg.info.getOffset.toNat
  if offset < realSize slpmsg then
    let len := min (slpmsg.buffer.length - offset) msnSbconnMaxSize
    -- the info of the part is the one from before the length is set
    appendPart
      { sending with slpmsg := { slpmsg with info := slpmsg.info.setLength (UInt32.ofNat len) } }
      { info := slpmsg.info, buffer := (slpmsg.buffer.drop offset).take len }
  else appendPart sending { info := slpmsg.info, buffer := [] }

def withSize (slpmsg : MsnSlpMessage) (info : MsnP2PInfo) : MsnP2PInfo :=
  (info.setId slpmsg.id).setTotalSize (UInt64.ofNat slpmsg.buffer.length)

def sendWith (sending : Sending) (info : MsnP2PInfo) : Sending :=
  let slpmsg := sending.slpmsg
  msnSlplinkSendMsgpart { sending with slpmsg := { slpmsg with info := withSize slpmsg info } }

/-- `ackId` is the random number.  Data that belongs to no call is not sent. -/
def msnSlplinkReleaseSlpmsg (ackId : UInt32) (sending : Sending) : Sending :=
  let info := sending.slpmsg.info
  if info.getFlags = p2pNoFlag then sendWith sending (info.setAckId ackId)
  else if info.isData then
    sending.slpmsg.slpcall.elim sending fun slpcall =>
      sendWith sending
        (((info.setSessionId slpcall.sessionId).setAppId slpcall.appId).setAckId ackId)
  else sendWith sending info

def hasCallback (slpmsg : MsnSlpMessage) : Bool :=
  slpmsg.info.isData && slpmsg.slpcall.any MsnSlpCall.cb

/-- The part is no longer outstanding, and its length counts. -/
def advance (sending : Sending) (part : MsnSlpMessagePart) (parts : List MsnSlpMessagePart) :
    Sending :=
  let info := sending.slpmsg.info
  { sending with
    slpmsg :=
      { sending.slpmsg with
        info := info.setOffset (info.getOffset + part.info.getLength.toUInt64) }
    parts
    acked := sending.acked ++ [part] }

/-- `none` where the call of the message is read and is NULL. -/
def msnSlpmsgpartAck (sending : Sending) (part : MsnSlpMessagePart)
    (parts : List MsnSlpMessagePart) : Option Sending :=
  let after := advance sending part parts
  if after.slpmsg.info.getOffset.toNat < realSize after.slpmsg then
    after.slpmsg.slpcall.map fun _ => msnSlplinkSendMsgpart after
  else some { after with ended := after.ended + if hasCallback after.slpmsg then 1 else 0 }

/-- The message sends again before the part is removed. -/
def msnSlpmsgpartNak (sending : Sending) : Sending :=
  let after := msnSlplinkSendMsgpart sending
  { after with parts := after.parts.tail }

inductive Answer where
  | ack
  | nak

def step (sending : Sending) (answer : Answer) : Option Sending :=
  match sending.parts with
  | [] => none
  | part :: parts =>
    match answer with
    | .ack => msnSlpmsgpartAck sending part parts
    | .nak => some (msnSlpmsgpartNak sending)

def newSlpmsg (slpcall : Option MsnSlpCall) (flags sessionId id : UInt32) (buffer : Bytes)
    (fits : buffer.length < 2 ^ 64) : MsnSlpMessage where
  slpcall := slpcall
  info := { header := .v1 { zeroHeader with flags, sessionId }, footer := 0 }
  id := id
  buffer := buffer
  fits := fits

def start (ackId : UInt32) (slpmsg : MsnSlpMessage) : Sending :=
  msnSlplinkReleaseSlpmsg ackId { slpmsg, parts := [], sent := [], acked := [], ended := 0 }

def Consecutive : Nat → List MsnSlpMessagePart → Prop
  | _, [] => True
  | offset, part :: parts =>
    part.info.getOffset.toNat = offset ∧ Consecutive (offset + part.buffer.length) parts

structure SentRight (slpmsg : MsnSlpMessage) (sending : Sending) : Prop where
  lengths : ∀ part ∈ sending.sent, part.info.getLength.toNat = part.buffer.length
  totals : ∀ part ∈ sending.sent, part.info.getTotalSize.toNat = slpmsg.buffer.length
  consecutive : Consecutive 0 sending.acked
  front : sending.acked.flatMap MsnSlpMessagePart.buffer <+: content slpmsg
  whole : sending.parts = [] →
    sending.acked.flatMap MsnSlpMessagePart.buffer = content slpmsg
  ended : sending.ended = if sending.parts = [] ∧ hasCallback slpmsg then 1 else 0

theorem setOffset_same (info : MsnP2PInfo) : info.setOffset info.getOffset = info := by
  obtain ⟨header, footer⟩ := info
  cases header <;> rfl

structure Released (slpmsg released : MsnSlpMessage) : Prop where
  buffer : released.buffer = slpmsg.buffer
  slpcall : released.slpcall = slpmsg.slpcall
  isAck : released.info.isAck = slpmsg.info.isAck
  isData : released.info.isData = slpmsg.info.isData
  offset : released.info.getOffset = 0
  length : released.info.getLength = 0
  total : released.info.getTotalSize.toNat = slpmsg.buffer.length

inductive EmptySent (released : MsnSlpMessage) (sending : Sending) : Prop where
  | waiting (count : Nat) (slpmsg : sending.slpmsg = released)
      (parts : sending.parts = [⟨released.info, []⟩])
      (sent : sending.sent = List.replicate count ⟨released.info, []⟩)
      (acked : sending.acked = []) (ended : sending.ended = 0)
  | done (count : Nat) (slpmsg : sending.slpmsg = released) (parts : sending.parts = [])
      (sent : sending.sent = List.replicate count ⟨released.info, []⟩)
      (acked : sending.acked = [⟨released.info, []⟩])
      (ended : sending.ended = if hasCallback released then 1 else 0)

theorem sendMsgpart_empty {sending : Sending} (empty : realSize sending.slpmsg = 0) :
    msnSlplinkSendMsgpart sending =
      appendPart sending { info := sending.slpmsg.info, buffer := [] } := by
  rw [msnSlplinkSendMsgpart]
  refine if_neg ?_
  rw [empty]
  exact Nat.not_lt_zero _

theorem step_empty {slpmsg released : MsnSlpMessage} (isReleased : Released slpmsg released)
    (empty : realSize released = 0) (sending : Sending) (answer : Answer) (next : Sending)
    (sent : EmptySent released sending) (stepped : step sending answer = some next) :
    EmptySent released next := by
  cases sent with
  | done count isSlpmsg parts _ _ _ =>
    rw [step, parts] at stepped
    cases stepped
  | waiting count isSlpmsg parts isSent acked ended =>
    rw [step, parts] at stepped
    cases answer with
    | ack =>
      have same : (advance sending ⟨released.info, []⟩ []).slpmsg = released := by
        have offset : released.info.getOffset + released.info.getLength.toUInt64 =
            released.info.getOffset := by
          rw [isReleased.offset, isReleased.length]
          rfl
        rw [advance, isSlpmsg, offset, setOffset_same]
      change msnSlpmsgpartAck sending ⟨released.info, []⟩ [] = some next at stepped
      rw [msnSlpmsgpartAck, same, empty, if_neg (Nat.not_lt_zero _)] at stepped
      cases stepped
      refine .done count rfl rfl isSent ?_ ?_
      · change sending.acked ++ [_] = _
        rw [acked]
        rfl
      · change sending.ended + _ = _
        rw [ended, Nat.zero_add]
    | nak =>
      cases stepped
      have again := @sendMsgpart_empty sending (by rw [isSlpmsg]; exact empty)
      rw [msnSlpmsgpartNak, again, isSlpmsg]
      refine .waiting (count + 1) isSlpmsg ?_ ?_ acked ended
      · change (sending.parts ++ [_]).tail = _
        rw [parts]
        rfl
      · change sending.sent ++ [_] = _
        rw [isSent, replicate_succ']

theorem EmptySent.right {slpmsg released : MsnSlpMessage} (isReleased : Released slpmsg released)
    (nothing : content slpmsg = []) {sending : Sending} (sent : EmptySent released sending) :
    SentRight slpmsg sending := by
  have callback : hasCallback released = hasCallback slpmsg := by
    rw [hasCallback, hasCallback, isReleased.isData, isReleased.slpcall]
  have parts : ∀ count, ∀ part ∈ List.replicate count (⟨released.info, []⟩ : MsnSlpMessagePart),
      part.info.getLength.toNat = part.buffer.length ∧
        part.info.getTotalSize.toNat = slpmsg.buffer.length := by
    intro count part member
    rw [eq_of_mem_replicate member]
    refine ⟨?_, isReleased.total⟩
    change released.info.getLength.toNat = 0
    rw [isReleased.length]
    rfl
  cases sent with
  | waiting count _ outstanding isSent acked ended =>
    constructor
    · rw [isSent]
      exact fun part member => (parts count part member).1
    · rw [isSent]
      exact fun part member => (parts count part member).2
    · rw [acked]
      trivial
    · rw [acked]
      exact nil_prefix
    · rw [outstanding]
      exact nofun
    · rw [ended, outstanding, if_neg fun none => cons_ne_nil _ _ none.1]
  | done count _ outstanding isSent acked ended =>
    constructor
    · rw [isSent]
      exact fun part member => (parts count part member).1
    · rw [isSent]
      exact fun part member => (parts count part member).2
    · rw [acked]
      refine ⟨?_, trivial⟩
      change released.info.getOffset.toNat = 0
      rw [isReleased.offset]
      rfl
    · rw [acked]
      exact nil_prefix
    · rw [acked, nothing]
      exact fun _ => rfl
    · rw [ended, outstanding, callback]
      by_cases has : hasCallback slpmsg = true
      · rw [if_pos has, if_pos ⟨rfl, has⟩]
      · rw [if_neg has, if_neg fun both => has both.2]

theorem newSlpmsg_released (slpcall : Option MsnSlpCall) (flags sessionId id ackId : UInt32)
    (buffer : Bytes) (fits : buffer.length < 2 ^ 64) :
    (∃ released, Released (newSlpmsg slpcall flags sessionId id buffer fits) released ∧
      start ackId (newSlpmsg slpcall flags sessionId id buffer fits) =
        msnSlplinkSendMsgpart { slpmsg := released, parts := [], sent := [], acked := [], ended := 0 }) ∨
    (slpcall = none ∧
      (start ackId (newSlpmsg slpcall flags sessionId id buffer fits)) =
        { slpmsg := newSlpmsg slpcall flags sessionId id buffer fits, parts := [], sent := [],
          acked := [], ended := 0 }) := by
  have total : (UInt64.ofNat buffer.length).toNat = buffer.length := by
    rw [UInt64.toNat_ofNat', Nat.mod_eq_of_lt fits]
  have sent : ∀ session app ack : UInt32,
      Released (newSlpmsg slpcall flags sessionId id buffer fits)
        { newSlpmsg slpcall flags sessionId id buffer fits with
          info := withSize (newSlpmsg slpcall flags sessionId id buffer fits)
            { header := .v1 { zeroHeader with flags, sessionId := session, ackId := ack }
              footer := app } } :=
    fun _ _ _ => ⟨rfl, rfl, rfl, rfl, rfl, rfl, total⟩
  rw [start, msnSlplinkReleaseSlpmsg]
  dsimp only
  by_cases plain : (newSlpmsg slpcall flags sessionId id buffer fits).info.getFlags = p2pNoFlag
  · rw [if_pos plain]
    exact .inl ⟨_, sent sessionId 0 ackId, rfl⟩
  rw [if_neg plain]
  by_cases data : (newSlpmsg slpcall flags sessionId id buffer fits).info.isData = true
  · rw [if_pos data]
    cases slpcall with
    | none => exact .inr ⟨rfl, rfl⟩
    | some slpcall => exact .inl ⟨_, sent slpcall.sessionId slpcall.appId ackId, rfl⟩
  · rw [if_neg data]
    exact .inl ⟨_, sent sessionId 0 0, rfl⟩

theorem content_length (slpmsg : MsnSlpMessage) : (content slpmsg).length = realSize slpmsg := by
  rw [content, realSize]
  split <;> rfl

theorem Released.realSize {slpmsg released : MsnSlpMessage}
    (isReleased : Released slpmsg released) :
    SlpSend.realSize released = (content slpmsg).length := by
  rw [content_length, SlpSend.realSize, SlpSend.realSize, isReleased.isAck, isReleased.buffer]

theorem first_part_wrong {slpmsg released : MsnSlpMessage}
    (isReleased : Released slpmsg released) (some : content slpmsg ≠ []) :
    ¬SentRight slpmsg (msnSlplinkSendMsgpart
      { slpmsg := released, parts := [], sent := [], acked := [], ended := 0 }) := by
  intro right
  have positive : 0 < SlpSend.realSize released := by
    rw [isReleased.realSize]
    exact length_pos_of_ne_nil some
  have offset : released.info.getOffset.toNat = 0 := by
    rw [isReleased.offset]
    rfl
  have lengths := right.lengths
  rw [msnSlplinkSendMsgpart] at lengths
  dsimp only at lengths
  rw [offset, if_pos positive] at lengths
  have length := lengths _ (mem_append_right _ (mem_singleton_self _))
  change released.info.getLength.toNat =
    ((released.buffer.drop 0).take (min (released.buffer.length - 0) msnSbconnMaxSize)).length
      at length
  have size : 0 < released.buffer.length := by
    rw [SlpSend.realSize] at positive
    split at positive
    · exact absurd positive (Nat.lt_irrefl 0)
    · exact positive
  have zero : released.info.getLength.toNat = 0 := by
    rw [isReleased.length]
    rfl
  rw [zero, drop_zero, length_take, msnSbconnMaxSize] at length
  omega

/-- A message of the first version is sent as it should be in every order of answers exactly if
it has nothing to send. -/
theorem slpmsg_sentRight_iff (slpcall : Option MsnSlpCall) (flags sessionId id ackId : UInt32)
    (buffer : Bytes) (fits : buffer.length < 2 ^ 64) :
    (∀ answers sending,
      PartialRun.run step (start ackId (newSlpmsg slpcall flags sessionId id buffer fits)) answers =
          some sending →
        SentRight (newSlpmsg slpcall flags sessionId id buffer fits) sending) ↔
      content (newSlpmsg slpcall flags sessionId id buffer fits) = [] := by
  rcases newSlpmsg_released slpcall flags sessionId id ackId buffer fits with
    ⟨released, isReleased, isStart⟩ | ⟨noCall, isStart⟩
  · rw [isStart]
    constructor
    · intro right
      by_contra some
      exact first_part_wrong isReleased some (right [] _ rfl)
    · intro nothing answers sending ran
      have empty : realSize released = 0 := by
        rw [isReleased.realSize, nothing]
        rfl
      rw [sendMsgpart_empty empty] at ran
      have first : EmptySent released (appendPart
          { slpmsg := released, parts := [], sent := [], acked := [], ended := 0 }
          { info := released.info, buffer := [] }) := .waiting 1 rfl rfl rfl rfl rfl
      have last := PartialRun.reached_of_run (EmptySent released)
        (fun sending answer next sent _ stepped => step_empty isReleased empty sending answer next
          sent stepped) first (PartialRun.admitted_always answers) ran
      exact last.right isReleased nothing
  · rw [isStart]
    constructor
    · intro right
      exact ((right [] _ rfl).whole rfl).symm
    · intro nothing answers sending ran
      cases answers with
      | cons answer answers => cases ran
      | nil =>
        cases ran
        refine ⟨nofun, nofun, trivial, nil_prefix, fun _ => nothing.symm, ?_⟩
        rw [noCall]
        refine (if_neg fun both => ?_).symm
        have has := both.2
        rw [hasCallback, newSlpmsg, Option.any_none, Bool.and_false] at has
        cases has

def dataPrep : MsnSlpMessage := newSlpmsg (some ⟨7, 1, true⟩) p2pNoFlag 7 100 [0, 0, 0, 0] (by decide)

theorem slpmsg_sentRight_iff_dataPrep :
    (∀ answers sending, PartialRun.run step (start 1 dataPrep) answers = some sending →
      SentRight dataPrep sending) ↔ content dataPrep = [] :=
  slpmsg_sentRight_iff (some ⟨7, 1, true⟩) p2pNoFlag 7 100 1 [0, 0, 0, 0] (by decide)

theorem dataPrep_not_sentRight :
    ¬∀ answers sending, PartialRun.run step (start 1 dataPrep) answers = some sending →
      SentRight dataPrep sending := by
  intro right
  have lengths := (right [] _ rfl).lengths _ (mem_singleton_self _)
  exact absurd lengths (by decide)

end Purple.Msn.SlpSend
