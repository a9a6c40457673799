/-
The header of the peer-to-peer protocol of MSN, and what is read from it and written to
it, from p2p.c, tlv.c and slpmsg_part.c.

A read behind the end of the data is `none`.  Where the source returns NULL or a
length of 0, the model returns `none` or 0 as a value.  The second version has no offset,
size or length of its own; these read as 0, and writing them does nothing.
-/

import Purple.Endian
import Purple.Msn.Servconn

namespace Purple.Msn

open Endian

def msnPop8 : Bytes → Option (UInt8 × Bytes)
  | [] => none
  | byte :: wire => some (byte, wire)

def msnPop16be (wire : Bytes) : Option (UInt16 × Bytes) :=
  (pop bigValue 2 wire).map fun read => (UInt16.ofNat read.1, read.2)

def msnPop32be (wire : Bytes) : Option (UInt32 × Bytes) :=
  (pop bigValue 4 wire).map fun read => (UInt32.ofNat read.1, read.2)

def msnPop32le (wire : Bytes) : Option (UInt32 × Bytes) :=
  (pop littleValue 4 wire).map fun read => (UInt32.ofNat read.1, read.2)

def msnPop64le (wire : Bytes) : Option (UInt64 × Bytes) :=
  (pop littleValue 8 wire).map fun read => (UInt64.ofNat read.1, read.2)

def msnPush16be (data : UInt16) : Bytes := big 2 data.toNat

def msnPush32be (data : UInt32) : Bytes := big 4 data.toNat

def msnPush32le (data : UInt32) : Bytes := little 4 data.toNat

def msnPush64le (data : UInt64) : Bytes := little 8 data.toNat

@[simp] theorem msnPop16be_push (data : UInt16) (wire : Bytes) :
    msnPop16be (msnPush16be data ++ wire) = some (data, wire) := by
  rw [msnPop16be, msnPush16be, pop_big 2 data.toNat_lt, Option.map_some, UInt16.ofNat_toNat]

@[simp] theorem msnPop32be_push (data : UInt32) (wire : Bytes) :
    msnPop32be (msnPush32be data ++ wire) = some (data, wire) := by
  rw [msnPop32be, msnPush32be, pop_big 4 data.toNat_lt, Option.map_some, UInt32.ofNat_toNat]

@[simp] theorem msnPop32le_push (data : UInt32) (wire : Bytes) :
    msnPop32le (msnPush32le data ++ wire) = some (data, wire) := by
  rw [msnPop32le, msnPush32le, pop_little 4 data.toNat_lt, Option.map_some, UInt32.ofNat_toNat]

@[simp] theorem msnPop64le_push (data : UInt64) (wire : Bytes) :
    msnPop64le (msnPush64le data ++ wire) = some (data, wire) := by
  rw [msnPop64le, msnPush64le, pop_little 8 data.toNat_lt, Option.map_some, UInt64.ofNat_toNat]

structure MsnTlv where
  type : UInt8
  value : Bytes
  fits : value.length < 256
deriving DecidableEq

def MsnTlv.length (tlv : MsnTlv) : UInt8 := UInt8.ofNat tlv.value.length

theorem MsnTlv.length_toNat (tlv : MsnTlv) : tlv.length.toNat = tlv.value.length := by
  rw [MsnTlv.length, UInt8.toNat_ofNat', Nat.mod_eq_of_lt tlv.fits]

def msnCreatetlv (type length : UInt8) (bs : Bytes) : MsnTlv where
  type := type
  value := bs.take length.toNat
  fits := Nat.lt_of_le_of_lt (List.length_take_le _ _) length.toNat_lt

/-- The loop that reads TLVs from so many bytes of the buffer.  The inner `none` is where
they have no room for a TLV. -/
def readTlvs (bs : Bytes) (bsLen : Nat) : Option (Option (List MsnTlv)) :=
  if bsLen = 0 then some (some [])
  else
    match bs with
    | [] => none
    | type :: rest =>
      -- what is left can be two or three bytes of padding
      if (bsLen = 3 ∨ bsLen = 2) ∧ type = 0 then some (some [])
      else if bsLen = 1 then some (if type = 0 then some [] else none)
      else
        match rest with
        | [] => none
        | length :: bs =>
          if bsLen - 2 < length.toNat then some none
          else if length.toNat ≤ bs.length then
            (readTlvs (bs.drop length.toNat) (bsLen - 2 - length.toNat)).map fun list =>
              list.map (msnCreatetlv type length bs :: ·)
          else none
termination_by bsLen

/-- A list that cannot be read is NULL, the empty list. -/
def msnTlvlistRead (bs : Bytes) (bsLen : Nat) : Option (List MsnTlv) :=
  (readTlvs bs bsLen).map (Option.getD · [])

def tlvBytes (tlv : MsnTlv) : Bytes := tlv.type :: tlv.length :: tlv.value

def tlvPadding (length : Nat) : Nat := if length % 4 = 0 then 0 else 4 - length % 4

/-- The buffer, and its length in the `guint8` that it is returned in. -/
def msnTlvlistWrite (list : List MsnTlv) : Bytes × UInt8 :=
  let bytes := list.flatMap tlvBytes
  let buf := bytes ++ List.replicate (tlvPadding bytes.length) 0
  (buf, UInt8.ofNat buf.length)

structure MsnP2PHeader where
  sessionId : UInt32
  id : UInt32
  offset : UInt64
  totalSize : UInt64
  length : UInt32
  flags : UInt32
  ackId : UInt32
  ackSubId : UInt32
  ackSize : UInt64
deriving DecidableEq

structure MsnP2Pv2Header where
  headerLen : UInt8
  opcode : UInt8
  messageLen : UInt16
  baseId : UInt32
  headerTlv : List MsnTlv
  dataHeaderLen : UInt8
  dataTf : UInt8
  packageNumber : UInt16
  sessionId : UInt32
  dataTlv : List MsnTlv
deriving DecidableEq

inductive MsnP2PAnyHeader where
  | v1 (header : MsnP2PHeader)
  | v2 (header : MsnP2Pv2Header)
deriving DecidableEq

structure MsnP2PInfo where
  header : MsnP2PAnyHeader
  footer : UInt32
deriving DecidableEq

inductive MsnP2PVersion where
  | one
  | two
deriving DecidableEq

def MsnP2PInfo.version (info : MsnP2PInfo) : MsnP2PVersion :=
  match info.header with
  | .v1 _ => .one
  | .v2 _ => .two

def zeroHeader : MsnP2PHeader := ⟨0, 0, 0, 0, 0, 0, 0, 0, 0⟩

def zeroV2Header : MsnP2Pv2Header := ⟨0, 0, 0, 0, [], 0, 0, 0, 0, []⟩

def msnP2pInfoNew : MsnP2PVersion → MsnP2PInfo
  | .one => { header := .v1 zeroHeader, footer := 0 }
  | .two => { header := .v2 zeroV2Header, footer := 0 }

def p2pPacketHeaderSize : Nat := 48

def p2pPacketFooterSize : Nat := 4

def MsnP2PHeader.toWire (header : MsnP2PHeader) : Bytes :=
  msnPush32le header.sessionId ++ msnPush32le header.id ++ msnPush64le header.offset ++
    msnPush64le header.totalSize ++ msnPush32le header.length ++ msnPush32le header.flags ++
      msnPush32le header.ackId ++ msnPush32le header.ackSubId ++ msnPush64le header.ackSize

/-- The lengths of the lists are written to the header; an empty list has none. -/
def MsnP2Pv2Header.withLengths (header : MsnP2Pv2Header) : MsnP2Pv2Header :=
  { header with
    headerLen := if header.headerTlv = [] then 0 else (msnTlvlistWrite header.headerTlv).2
    dataHeaderLen := if header.dataTlv = [] then 0 else (msnTlvlistWrite header.dataTlv).2 }

/-- The lists are copied as far as their lengths say. -/
def MsnP2Pv2Header.toWire (header : MsnP2Pv2Header) : Bytes :=
  [header.headerLen + 8, header.opcode] ++
    msnPush16be (UInt16.ofNat (header.dataHeaderLen.toNat + 8 + header.messageLen.toNat)) ++
    msnPush32be header.baseId ++
    (msnTlvlistWrite header.headerTlv).1.take header.headerLen.toNat ++
    [header.dataHeaderLen + 8, header.dataTf] ++ msnPush16be header.packageNumber ++
    msnPush32be header.sessionId ++
    (msnTlvlistWrite header.dataTlv).1.take header.dataHeaderLen.toNat

def msnP2pHeaderToWire (info : MsnP2PInfo) : Bytes × MsnP2PInfo :=
  match info.header with
  | .v1 header => (header.toWire, info)
  | .v2 header => (header.withLengths.toWire, { info with header := .v2 header.withLengths })

def msnP2pFooterToWire (info : MsnP2PInfo) : Bytes := msnPush32be info.footer

def MsnP2PHeader.fromWire (wire : Bytes) : Option MsnP2PHeader := do
  let (sessionId, wire) ← msnPop32le wire
  let (id, wire) ← msnPop32le wire
  let (offset, wire) ← msnPop64le wire
  let (totalSize, wire) ← msnPop64le wire
  let (length, wire) ← msnPop32le wire
  let (flags, wire) ← msnPop32le wire
  let (ackId, wire) ← msnPop32le wire
  let (ackSubId, wire) ← msnPop32le wire
  let (ackSize, _) ← msnPop64le wire
  return { sessionId, id, offset, totalSize, length, flags, ackId, ackSubId, ackSize }

/-- The list behind a header of this length, which counts 8 bytes of its own. -/
def tlvsFromWire (old : List MsnTlv) (length : UInt8) (wire : Bytes) :
    Option (List MsnTlv × Bytes) :=
  if 8 < length.toNat then
    (msnTlvlistRead wire (length.toNat - 8)).map fun list => (list, wire.drop (length.toNat - 8))
  else some (old, wire)

/-- Parses the data packet.  The header, and the length; 0 where it is invalid. -/
def MsnP2Pv2Header.dataFromWire (header : MsnP2Pv2Header) (wire : Bytes) :
    Option (MsnP2Pv2Header × Nat) :=
  let len := header.headerLen.toNat + header.messageLen.toNat
  if 0 < header.messageLen.toNat then do
    let (dataHeaderLen, wire) ← msnPop8 wire
    if header.messageLen.toNat < dataHeaderLen.toNat then return ({ header with dataHeaderLen }, 0)
    let (dataTf, wire) ← msnPop8 wire
    let (packageNumber, wire) ← msnPop16be wire
    let (sessionId, wire) ← msnPop32be wire
    let (dataTlv, _) ← tlvsFromWire header.dataTlv dataHeaderLen wire
    return ({ header with dataHeaderLen, dataTf, packageNumber, sessionId, dataTlv }, len)
  else some (header, len)

def MsnP2Pv2Header.fromWire (header : MsnP2Pv2Header) (wire : Bytes) (maxLen : Nat) :
    Option (MsnP2Pv2Header × Nat) := do
  let (headerLen, wire) ← msnPop8 wire
  let (opcode, wire) ← msnPop8 wire
  let (messageLen, wire) ← msnPop16be wire
  let (baseId, wire) ← msnPop32be wire
  if maxLen < headerLen.toNat + messageLen.toNat + p2pPacketFooterSize then
    return ({ header with headerLen, opcode, messageLen, baseId }, 0)
  let (headerTlv, wire) ← tlvsFromWire header.headerTlv headerLen wire
  MsnP2Pv2Header.dataFromWire { header with headerLen, opcode, messageLen, baseId, headerTlv } wire

/-- The info, and the length of what was read; 0 where it is invalid. -/
def msnP2pHeaderFromWire (info : MsnP2PInfo) (wire : Bytes) (maxLen : Nat) :
    Option (MsnP2PInfo × Nat) :=
  match info.header with
  | .v1 _ =>
    if maxLen < p2pPacketHeaderSize then some (info, 0)
    else (MsnP2PHeader.fromWire wire).map fun header =>
      ({ info with header := .v1 header }, p2pPacketHeaderSize)
  | .v2 header =>
    (header.fromWire wire maxLen).map fun read => ({ info with header := .v2 read.1 }, read.2)

/-- `size` is the length of the buffer. -/
structure MsnSlpMessagePart where
  info : MsnP2PInfo
  buffer : Bytes
deriving DecidableEq

def msnSlpmsgpartSerialize (part : MsnSlpMessagePart) : Bytes × MsnSlpMessagePart :=
  let header := msnP2pHeaderToWire part.info
  (header.1 ++ part.buffer ++ msnP2pFooterToWire part.info, { part with info := header.2 })

/-- The length of the body is an `int`. -/
def bodyLen (dataLen len : Nat) : Int :=
  Int.bmod ((dataLen : Int) - len - p2pPacketFooterSize) (2 ^ 32)

def msnSlpmsgpartRest (info : MsnP2PInfo) (data : Bytes) (bodyLen : Int) :
    Option MsnSlpMessagePart :=
  if bodyLen < 0 then some { info, buffer := [] }
  else if bodyLen.toNat ≤ data.length then
    (msnPop32be (data.drop bodyLen.toNat)).map fun read =>
      { info := { info with footer := read.1 }, buffer := data.take bodyLen.toNat }
  else none

/-- The inner `none` is NULL. -/
def msnSlpmsgpartNewFromData (p2p : MsnP2PVersion) (data : Bytes) :
    Option (Option MsnSlpMessagePart) :=
  (msnP2pHeaderFromWire (msnP2pInfoNew p2p) data data.length).bind fun read =>
    if read.2 = 0 then some none
    else
      (msnSlpmsgpartRest read.1 (data.drop read.2) (bodyLen data.length read.2)).map some

def p2pNoFlag : UInt32 := 0x0

def p2pAck : UInt32 := 0x2

def p2pMsnObjData : UInt32 := 0x20

def p2pWlm2009Comp : UInt32 := 0x1000000

def p2pFileData : UInt32 := 0x1000030

def msnTlvGettlv (list : List MsnTlv) (type : UInt8) : Option MsnTlv :=
  list.find? fun tlv => tlv.type = type

namespace MsnP2PInfo

variable (info : MsnP2PInfo)

def getOffset : UInt64 :=
  match info.header with
  | .v1 header => header.offset
  | .v2 _ => 0

def getTotalSize : UInt64 :=
  match info.header with
  | .v1 header => header.totalSize
  | .v2 _ => 0

def getLength : UInt32 :=
  match info.header with
  | .v1 header => header.length
  | .v2 _ => 0

def getFlags : UInt32 :=
  match info.header with
  | .v1 header => header.flags
  | .v2 header => header.dataTf.toUInt32

/-- `msn_p2p_msg_is_data` -/
def isData : Bool :=
  match info.header with
  | .v1 header =>
    header.flags = p2pMsnObjData ∨ header.flags = p2pWlm2009Comp ||| p2pMsnObjData ∨
      header.flags = p2pFileData
  | .v2 header => 0 < header.messageLen

def isAck : Bool :=
  match info.header with
  | .v1 header => header.flags = p2pAck
  | .v2 header => (msnTlvGettlv header.headerTlv 2).isSome

def setSessionId (sessionId : UInt32) : MsnP2PInfo :=
  match info.header with
  | .v1 header => { info with header := .v1 { header with sessionId } }
  | .v2 header => { info with header := .v2 { header with sessionId } }

def setId (id : UInt32) : MsnP2PInfo :=
  match info.header with
  | .v1 header => { info with header := .v1 { header with id } }
  | .v2 header => { info with header := .v2 { header with baseId := id } }

def setOffset (offset : UInt64) : MsnP2PInfo :=
  match info.header with
  | .v1 header => { info with header := .v1 { header with offset } }
  | .v2 _ => info

def setTotalSize (totalSize : UInt64) : MsnP2PInfo :=
  match info.header with
  | .v1 header => { info with header := .v1 { header with totalSize } }
  | .v2 _ => info

def setLength (length : UInt32) : MsnP2PInfo :=
  match info.header with
  | .v1 header => { info with header := .v1 { header with length } }
  | .v2 _ => info

def setAckId (ackId : UInt32) : MsnP2PInfo :=
  match info.header with
  | .v1 header => { info with header := .v1 { header with ackId } }
  | .v2 _ => info

def setAppId (appId : UInt32) : MsnP2PInfo := { info with footer := appId }

end MsnP2PInfo

end Purple.Msn
