/-
What a part is after it has been serialized and parsed.

The length that the second version sends for the message counts the data header and
what the info says of the body, but parsing takes it to be the length of everything
behind the header.
-/

import Purple.Msn.P2p

namespace Purple.Msn

open List Option Endian

/-! ### Lists of TLVs -/

variable {list : List MsnTlv}

theorem createtlv_front (tlv : MsnTlv) (bs : Bytes) :
    msnCreatetlv tlv.type tlv.length (tlv.value ++ bs) = tlv := by
  have value : (tlv.value ++ bs).take tlv.length.toNat = tlv.value :=
    take_left' tlv.length_toNat.symm
  cases tlv with
  | mk type content fits =>
    unfold msnCreatetlv
    congr

theorem readTlvs_padding {count : Nat} (few : count ≤ 3) (more : Bytes) :
    readTlvs (List.replicate count 0 ++ more) count = some (some []) := by
  obtain rfl | rfl | rfl | rfl : count = 0 ∨ count = 1 ∨ count = 2 ∨ count = 3 := by omega
  all_goals
    unfold readTlvs
    rfl

theorem readTlvs_write (types : ∀ tlv ∈ list, tlv.type ≠ 0) {count : Nat} (few : count ≤ 3)
    (more : Bytes) :
    readTlvs (list.flatMap tlvBytes ++ (List.replicate count 0 ++ more))
      ((list.flatMap tlvBytes).length + count) = some (some list) := by
  induction list with
  | nil =>
    rw [flatMap_nil, nil_append, length_nil, Nat.zero_add]
    exact readTlvs_padding few more
  | cons tlv list ih =>
    have size : (tlvBytes tlv).length = tlv.value.length + 2 := rfl
    have solid : tlv.type ≠ 0 := types tlv mem_cons_self
    have later := ih fun other member => types other (mem_cons_of_mem _ member)
    rw [flatMap_cons, append_assoc, length_append, size]
    change readTlvs (tlv.type :: tlv.length ::
      (tlv.value ++ (list.flatMap tlvBytes ++ (List.replicate count 0 ++ more)))) _ = _
    have left : tlv.value.length + 2 + (list.flatMap tlvBytes).length + count - 2 -
        tlv.value.length = (list.flatMap tlvBytes).length + count := by omega
    rw [readTlvs.eq_def, if_neg (by omega)]
    dsimp only
    rw [if_neg fun padding => solid padding.2, if_neg fun single => by omega, tlv.length_toNat,
      if_neg (by omega), if_pos, createtlv_front, drop_left' rfl, left, later]
    · rfl
    · rw [length_append]
      exact Nat.le_add_right _ _

structure TlvsFit (list : List MsnTlv) : Prop where
  types : ∀ tlv ∈ list, tlv.type ≠ 0
  short : (msnTlvlistWrite list).1.length ≤ 240

theorem tlvlistRead_write (fit : TlvsFit list) (more : Bytes) :
    msnTlvlistRead ((msnTlvlistWrite list).1 ++ more) (msnTlvlistWrite list).1.length =
      some list := by
  have few : tlvPadding (list.flatMap tlvBytes).length ≤ 3 := by
    rw [tlvPadding]
    split <;> omega
  have whole := readTlvs_write fit.types few more
  rw [← append_assoc] at whole
  rw [msnTlvlistRead, msnTlvlistWrite]
  dsimp only
  rw [length_append, length_replicate, whole]
  rfl

def tlvLength (list : List MsnTlv) : UInt8 := if list = [] then 0 else (msnTlvlistWrite list).2

theorem written_positive (nonempty : list ≠ []) : 0 < (msnTlvlistWrite list).1.length := by
  obtain ⟨tlv, rest, rfl⟩ := exists_cons_of_ne_nil nonempty
  change 0 < ((tlv :: rest).flatMap tlvBytes ++ List.replicate _ 0).length
  rw [length_append, flatMap_cons, length_append]
  have size : (tlvBytes tlv).length = tlv.value.length + 2 := rfl
  omega

theorem tlvLength_toNat (fit : TlvsFit list) (nonempty : list ≠ []) :
    (tlvLength list).toNat = (msnTlvlistWrite list).1.length := by
  have short := fit.short
  rw [tlvLength, if_neg nonempty]
  change (UInt8.ofNat (msnTlvlistWrite list).1.length).toNat = _
  rw [UInt8.toNat_ofNat']
  omega

theorem tlvLength_le (fit : TlvsFit list) : (tlvLength list).toNat ≤ 240 := by
  by_cases empty : list = []
  · rw [tlvLength, if_pos empty]
    decide
  · rw [tlvLength_toNat fit empty]
    exact fit.short

theorem tlvLength_add (fit : TlvsFit list) :
    (tlvLength list + 8).toNat = (tlvLength list).toNat + 8 := by
  have short := tlvLength_le fit
  rw [UInt8.toNat_add]
  change ((tlvLength list).toNat + 8) % 256 = _
  omega

theorem tlvsFromWire_write (fit : TlvsFit list) (wire : Bytes) :
    tlvsFromWire [] (tlvLength list + 8)
      ((msnTlvlistWrite list).1.take (tlvLength list).toNat ++ wire) = some (list, wire) := by
  rw [tlvsFromWire, tlvLength_add fit, Nat.add_sub_cancel]
  by_cases empty : list = []
  · have zero : tlvLength list = 0 := by rw [tlvLength, if_pos empty]
    rw [zero, if_neg (by decide), empty]
    rfl
  · have length := tlvLength_toNat fit empty
    have positive := written_positive empty
    rw [length, take_length, if_pos (by omega), tlvlistRead_write fit, drop_left' rfl]
    rfl

theorem written_take_length (fit : TlvsFit list) :
    ((msnTlvlistWrite list).1.take (tlvLength list).toNat).length = (tlvLength list).toNat := by
  rw [length_take]
  by_cases empty : list = []
  · rw [tlvLength, if_pos empty]
    exact Nat.zero_min _
  · rw [tlvLength_toNat fit empty, Nat.min_self]

/-! ### Headers -/

theorem v1_fromWire (header : MsnP2PHeader) (rest : Bytes) :
    MsnP2PHeader.fromWire (header.toWire ++ rest) = some header := by
  rw [MsnP2PHeader.toWire, MsnP2PHeader.fromWire]
  simp only [append_assoc, msnPop32le_push, msnPop64le_push, bind_eq_bind,
    bind_some]
  rfl

theorem v1_toWire_length (header : MsnP2PHeader) : header.toWire.length = p2pPacketHeaderSize := by
  simp only [MsnP2PHeader.toWire, length_append, msnPush32le, msnPush64le, little_length]
  rfl

namespace MsnP2Pv2Header

variable (header : MsnP2Pv2Header)

def sentLen : UInt16 :=
  UInt16.ofNat ((tlvLength header.dataTlv).toNat + 8 + header.messageLen.toNat)

def front : MsnP2Pv2Header :=
  { zeroV2Header with
    headerLen := tlvLength header.headerTlv + 8
    opcode := header.opcode
    messageLen := header.sentLen
    baseId := header.baseId
    headerTlv := header.headerTlv }

def parsed : MsnP2Pv2Header :=
  { header.front with
    dataHeaderLen := tlvLength header.dataTlv + 8
    dataTf := header.dataTf
    packageNumber := header.packageNumber
    sessionId := header.sessionId
    dataTlv := header.dataTlv }

def dataWire : Bytes :=
  [tlvLength header.dataTlv + 8, header.dataTf] ++ msnPush16be header.packageNumber ++
    msnPush32be header.sessionId ++
      (msnTlvlistWrite header.dataTlv).1.take (tlvLength header.dataTlv).toNat

theorem withLengths_toWire :
    header.withLengths.toWire =
      (tlvLength header.headerTlv + 8) :: header.opcode ::
        (msnPush16be header.sentLen ++ (msnPush32be header.baseId ++
          ((msnTlvlistWrite header.headerTlv).1.take (tlvLength header.headerTlv).toNat ++
            header.dataWire))) := by
  simp only [MsnP2Pv2Header.toWire, MsnP2Pv2Header.withLengths, dataWire, append_assoc,
    cons_append, nil_append]
  rfl

theorem dataFromWire_dataWire (fit : TlvsFit header.dataTlv) (rest : Bytes) :
    header.front.dataFromWire (header.dataWire ++ rest) =
      if 0 < header.sentLen.toNat then
        if header.sentLen.toNat < (tlvLength header.dataTlv + 8).toNat then
          some ({ header.front with dataHeaderLen := tlvLength header.dataTlv + 8 }, 0)
        else
          some (header.parsed,
            (tlvLength header.headerTlv + 8).toNat + header.sentLen.toNat)
      else
        some (header.front, (tlvLength header.headerTlv + 8).toNat + header.sentLen.toNat) := by
  rw [dataFromWire]
  change (if 0 < header.sentLen.toNat then _ else _) = _
  by_cases some : 0 < header.sentLen.toNat
  · rw [if_pos some, if_pos some, dataWire]
    simp only [append_assoc, cons_append, nil_append, msnPop8,
      bind_eq_bind, bind_some]
    by_cases invalid : header.sentLen.toNat < (tlvLength header.dataTlv + 8).toNat
    · rw [if_pos invalid]
      exact if_pos invalid
    · rw [if_neg invalid]
      refine (if_neg invalid).trans ?_
      rw [msnPop16be_push, bind_some, msnPop32be_push, bind_some]
      change (tlvsFromWire [] _ _).bind _ = _
      rw [tlvsFromWire_write fit]
      rfl
  · rw [if_neg some, if_neg some]
    rfl

theorem fromWire_toWire (fit : TlvsFit header.headerTlv) (rest : Bytes) (maxLen : Nat) :
    zeroV2Header.fromWire (header.withLengths.toWire ++ rest) maxLen =
      if maxLen < (tlvLength header.headerTlv + 8).toNat + header.sentLen.toNat +
          p2pPacketFooterSize then
        some ({ header.front with headerTlv := [] }, 0)
      else header.front.dataFromWire (header.dataWire ++ rest) := by
  rw [withLengths_toWire, fromWire]
  simp only [append_assoc, cons_append, msnPop8, msnPop16be_push, msnPop32be_push,
    bind_eq_bind, bind_some]
  by_cases invalid : maxLen < (tlvLength header.headerTlv + 8).toNat + header.sentLen.toNat +
      p2pPacketFooterSize
  · rw [if_pos invalid, if_pos invalid]
    rfl
  · rw [if_neg invalid, if_neg invalid]
    change (tlvsFromWire [] _ _).bind _ = _
    rw [tlvsFromWire_write fit]
    rfl

theorem dataWire_length (fit : TlvsFit header.dataTlv) :
    header.dataWire.length = 8 + (tlvLength header.dataTlv).toNat := by
  simp only [dataWire, length_append, msnPush16be, msnPush32be, big_length,
    written_take_length fit]
  rfl

theorem toWire_length (headers : TlvsFit header.headerTlv) (data : TlvsFit header.dataTlv) :
    header.withLengths.toWire.length =
      (tlvLength header.headerTlv).toNat + (tlvLength header.dataTlv).toNat + 16 := by
  rw [withLengths_toWire, length_cons, length_cons, length_append,
    length_append, length_append, written_take_length headers, header.dataWire_length data,
    msnPush16be, msnPush32be, big_length, big_length]
  omega

end MsnP2Pv2Header

theorem bodyLen_eq (len size : Nat) :
    bodyLen (len + size + p2pPacketFooterSize) len = Int.bmod size (2 ^ 32) := by
  rw [bodyLen]
  congr 1
  push_cast
  omega

theorem bmod_small {size : Nat} (small : size < 2 ^ 31) : Int.bmod size (2 ^ 32) = size := by
  rw [Int.bmod_def]
  omega

theorem small_of_bmod {size : Nat} (same : (Int.bmod size (2 ^ 32)).toNat = size) :
    size < 2 ^ 31 := by
  rw [Int.bmod_def] at same
  omega

theorem rest_exact (info : MsnP2PInfo) (body : Bytes) (footer : UInt32) :
    msnSlpmsgpartRest info (body ++ msnPush32be footer) body.length =
      some { info := { info with footer }, buffer := body } := by
  have footerRead := msnPop32be_push footer []
  rw [append_nil] at footerRead
  rw [msnSlpmsgpartRest, if_neg (by omega), Int.toNat_natCast, if_pos, drop_left' rfl,
    take_left' rfl, footerRead]
  · rfl
  · rw [length_append]
    exact Nat.le_add_right _ _

theorem rest_buffer {info : MsnP2PInfo} {data : Bytes} {length : Int} {part : MsnSlpMessagePart}
    (got : msnSlpmsgpartRest info data length = some part) :
    part.buffer.length = length.toNat ∧ part.info.header = info.header := by
  rw [msnSlpmsgpartRest] at got
  by_cases negative : length < 0
  · rw [if_pos negative] at got
    cases got
    exact ⟨(Int.toNat_of_nonpos (Int.le_of_lt negative)).symm, rfl⟩
  · rw [if_neg negative] at got
    by_cases room : length.toNat ≤ data.length
    · rw [if_pos room] at got
      obtain ⟨read, _popped, rfl⟩ := map_eq_some_iff.mp got
      exact ⟨length_take_of_le room, rfl⟩
    · rw [if_neg room] at got
      cases got

/-! ### Parts -/

def MsnP2PInfo.Fits (info : MsnP2PInfo) : Prop :=
  match info.header with
  | .v1 _ => True
  | .v2 header => TlvsFit header.headerTlv ∧ TlvsFit header.dataTlv

def Recovers (part : MsnSlpMessagePart) : Prop :=
  msnSlpmsgpartNewFromData part.info.version (msnSlpmsgpartSerialize part).1 = some (some part)

def MsnP2PInfo.withoutLengths (info : MsnP2PInfo) : MsnP2PInfo :=
  match info.header with
  | .v1 _ => info
  | .v2 header =>
    { info with header := .v2 { header with headerLen := 0, messageLen := 0, dataHeaderLen := 0 } }

/-- The same without regard to the lengths in the header of the second version. -/
def RecoversContents (part : MsnSlpMessagePart) : Prop :=
  ∃ got, msnSlpmsgpartNewFromData part.info.version (msnSlpmsgpartSerialize part).1 =
      some (some got) ∧ got.buffer = part.buffer ∧
    got.info.withoutLengths = part.info.withoutLengths

def MsnP2PInfo.messageLen (info : MsnP2PInfo) : UInt16 :=
  match info.header with
  | .v1 _ => 0
  | .v2 header => header.messageLen

theorem v1_newFromData (header : MsnP2PHeader) (footer : UInt32) (body : Bytes) :
    msnSlpmsgpartNewFromData .one (msnSlpmsgpartSerialize ⟨⟨.v1 header, footer⟩, body⟩).1 =
      (msnSlpmsgpartRest { header := .v1 header, footer := 0 } (body ++ msnPush32be footer)
        (Int.bmod body.length (2 ^ 32))).map some := by
  have wire : (msnSlpmsgpartSerialize ⟨⟨.v1 header, footer⟩, body⟩).1 =
      header.toWire ++ (body ++ msnPush32be footer) := append_assoc _ _ _
  have length := v1_toWire_length header
  have total : (header.toWire ++ (body ++ msnPush32be footer)).length =
      p2pPacketHeaderSize + body.length + p2pPacketFooterSize := by
    rw [length_append, length_append, length, msnPush32be, big_length, Nat.add_assoc]
    rfl
  have read : msnP2pHeaderFromWire (msnP2pInfoNew .one)
      (header.toWire ++ (body ++ msnPush32be footer))
      (p2pPacketHeaderSize + body.length + p2pPacketFooterSize) =
        some ({ header := .v1 header, footer := 0 }, p2pPacketHeaderSize) := by
    rw [msnP2pHeaderFromWire]
    refine (if_neg (by omega)).trans ?_
    rw [v1_fromWire]
    rfl
  rw [wire, msnSlpmsgpartNewFromData, total, read, bind_some,
    if_neg (show p2pPacketHeaderSize ≠ 0 by decide), drop_left' length, bodyLen_eq]

theorem v1_recovers_iff (header : MsnP2PHeader) (footer : UInt32) (body : Bytes) :
    Recovers ⟨⟨.v1 header, footer⟩, body⟩ ↔ body.length < 2 ^ 31 := by
  constructor
  · intro recovers
    rw [Recovers] at recovers
    change msnSlpmsgpartNewFromData .one _ = _ at recovers
    rw [v1_newFromData] at recovers
    obtain ⟨got, rest, same⟩ := map_eq_some_iff.mp recovers
    have sized := (rest_buffer rest).1
    rw [Option.some.inj same] at sized
    exact small_of_bmod sized.symm
  · intro small
    rw [Recovers]
    change msnSlpmsgpartNewFromData .one _ = _
    rw [v1_newFromData, bmod_small small, rest_exact]
    rfl

theorem v1_contents_iff (header : MsnP2PHeader) (footer : UInt32) (body : Bytes) :
    RecoversContents ⟨⟨.v1 header, footer⟩, body⟩ ↔ body.length < 2 ^ 31 := by
  constructor
  · rintro ⟨got, isGot, buffer, _contents⟩
    change msnSlpmsgpartNewFromData .one _ = _ at isGot
    rw [v1_newFromData] at isGot
    obtain ⟨got', rest, same⟩ := map_eq_some_iff.mp isGot
    have sized := (rest_buffer rest).1
    rw [Option.some.inj same, buffer] at sized
    exact small_of_bmod sized.symm
  · intro small
    exact ⟨_, (v1_recovers_iff header footer body).mpr small, rfl, rfl⟩

section Second

variable (header : MsnP2Pv2Header) (footer : UInt32) (body : Bytes)

theorem v2_wire (headers : TlvsFit header.headerTlv) (data : TlvsFit header.dataTlv) :
    (msnSlpmsgpartSerialize ⟨⟨.v2 header, footer⟩, body⟩).1 =
        header.withLengths.toWire ++ (body ++ msnPush32be footer) ∧
      (header.withLengths.toWire ++ (body ++ msnPush32be footer)).length =
        (tlvLength header.headerTlv).toNat + (tlvLength header.dataTlv).toNat + 16 + body.length +
          p2pPacketFooterSize := by
  refine ⟨append_assoc _ _ _, ?_⟩
  rw [length_append, length_append, header.toWire_length headers data, msnPush32be,
    big_length]
  rfl

theorem v2_received (headers : TlvsFit header.headerTlv) (data : TlvsFit header.dataTlv)
    {got : MsnSlpMessagePart}
    (isGot : msnSlpmsgpartNewFromData .two
      (msnSlpmsgpartSerialize ⟨⟨.v2 header, footer⟩, body⟩).1 = some (some got)) :
    ∃ size, size + header.sentLen.toNat = 8 + (tlvLength header.dataTlv).toNat + body.length ∧
      (header.sentLen.toNat = 0 ∨
        8 + (tlvLength header.dataTlv).toNat ≤ header.sentLen.toNat) ∧
      got.buffer.length = (Int.bmod size (2 ^ 32)).toNat ∧
      ∃ parsed, got.info.header = .v2 parsed ∧ parsed.messageLen = header.sentLen := by
  obtain ⟨wire, total⟩ := v2_wire header footer body headers data
  have headerLength := tlvLength_add headers
  have dataLength := tlvLength_add data
  rw [wire, msnSlpmsgpartNewFromData, total, msnP2pHeaderFromWire] at isGot
  change ((zeroV2Header.fromWire _ _).map _).bind _ = _ at isGot
  rw [header.fromWire_toWire headers] at isGot
  by_cases invalid : (tlvLength header.headerTlv).toNat + (tlvLength header.dataTlv).toNat + 16 +
      body.length + p2pPacketFooterSize <
        (tlvLength header.headerTlv + 8).toNat + header.sentLen.toNat + p2pPacketFooterSize
  · rw [if_pos invalid] at isGot
    cases isGot
  rw [if_neg invalid, header.dataFromWire_dataWire data] at isGot
  obtain ⟨size, whole⟩ : ∃ size, size + header.sentLen.toNat =
      8 + (tlvLength header.dataTlv).toNat + body.length :=
    ⟨8 + (tlvLength header.dataTlv).toNat + body.length - header.sentLen.toNat, by omega⟩
  have sizes : (tlvLength header.headerTlv).toNat + (tlvLength header.dataTlv).toNat + 16 +
      body.length + p2pPacketFooterSize = (tlvLength header.headerTlv + 8).toNat +
        header.sentLen.toNat + size + p2pPacketFooterSize := by omega
  -- the length of a header that is parsed is not 0
  have nonzero : (tlvLength header.headerTlv + 8).toNat + header.sentLen.toNat ≠ 0 := by omega
  by_cases some : 0 < header.sentLen.toNat
  · rw [if_pos some] at isGot
    by_cases short : header.sentLen.toNat < (tlvLength header.dataTlv + 8).toNat
    · rw [if_pos short] at isGot
      cases isGot
    · rw [if_neg short, map_some, bind_some, if_neg nonzero, sizes,
        bodyLen_eq] at isGot
      obtain ⟨got', rest, same⟩ := map_eq_some_iff.mp isGot
      obtain ⟨buffer, isHeader⟩ := rest_buffer rest
      rw [Option.some.inj same] at buffer isHeader
      exact ⟨size, whole, .inr (by omega), buffer, header.parsed, isHeader, rfl⟩
  · rw [if_neg some, map_some, bind_some, if_neg nonzero, sizes, bodyLen_eq] at isGot
    obtain ⟨got', rest, same⟩ := map_eq_some_iff.mp isGot
    obtain ⟨buffer, isHeader⟩ := rest_buffer rest
    rw [Option.some.inj same] at buffer isHeader
    exact ⟨size, whole, .inl (by omega), buffer, header.front, isHeader, rfl⟩

theorem v2_newFromData (headers : TlvsFit header.headerTlv) (data : TlvsFit header.dataTlv)
    (nothing : header.messageLen = 0) (small : body.length < 2 ^ 31) :
    msnSlpmsgpartNewFromData .two (msnSlpmsgpartSerialize ⟨⟨.v2 header, footer⟩, body⟩).1 =
      some (some ⟨⟨.v2 header.parsed, footer⟩, body⟩) := by
  obtain ⟨wire, total⟩ := v2_wire header footer body headers data
  have headerLength := tlvLength_add headers
  have dataLength := tlvLength_add data
  have bound := tlvLength_le data
  have sent : header.sentLen.toNat = (tlvLength header.dataTlv).toNat + 8 := by
    rw [MsnP2Pv2Header.sentLen, nothing, UInt16.toNat_ofNat']
    change ((tlvLength header.dataTlv).toNat + 8 + 0) % 65536 = _
    omega
  have length := header.toWire_length headers data
  rw [wire, msnSlpmsgpartNewFromData, total, msnP2pHeaderFromWire]
  change ((zeroV2Header.fromWire _ _).map _).bind _ = _
  rw [header.fromWire_toWire headers, if_neg (by omega), header.dataFromWire_dataWire data,
    if_pos (by omega), if_neg (by omega), map_some, bind_some, if_neg (by omega)]
  have front : (tlvLength header.headerTlv + 8).toNat + header.sentLen.toNat =
      (tlvLength header.headerTlv).toNat + (tlvLength header.dataTlv).toNat + 16 := by omega
  rw [front, drop_left' length, bodyLen_eq, bmod_small small, rest_exact]
  rfl

theorem v2_contents_iff (headers : TlvsFit header.headerTlv) (data : TlvsFit header.dataTlv) :
    RecoversContents ⟨⟨.v2 header, footer⟩, body⟩ ↔
      header.messageLen = 0 ∧ body.length < 2 ^ 31 := by
  constructor
  · rintro ⟨got, isGot, buffer, _contents⟩
    obtain ⟨size, whole, sent, sized, _parsed⟩ := v2_received header footer body headers data isGot
    rw [buffer, Int.bmod_def] at sized
    change body.length = _ at sized
    have bound := tlvLength_le data
    have announced := header.messageLen.toNat_lt
    have wraps : header.sentLen.toNat =
        ((tlvLength header.dataTlv).toNat + 8 + header.messageLen.toNat) % 65536 :=
      UInt16.toNat_ofNat'
    refine ⟨UInt16.toNat_inj.mp ?_, ?_⟩
    · change header.messageLen.toNat = 0
      omega
    · omega
  · rintro ⟨nothing, small⟩
    exact ⟨_, v2_newFromData header footer body headers data nothing small, rfl, rfl⟩

theorem v2_not_recovers (headers : TlvsFit header.headerTlv) (data : TlvsFit header.dataTlv) :
    ¬Recovers ⟨⟨.v2 header, footer⟩, body⟩ := by
  intro recovers
  obtain ⟨_size, _whole, _sent, _sized, parsed, isHeader, length⟩ :=
    v2_received header footer body headers data recovers
  cases isHeader
  have bound := tlvLength_le data
  have announced := header.messageLen.toNat_lt
  have wraps : header.sentLen.toNat =
      ((tlvLength header.dataTlv).toNat + 8 + header.messageLen.toNat) % 65536 :=
    UInt16.toNat_ofNat'
  rw [← length] at wraps
  omega

end Second

/-- A part of the first version is recovered, up to the length of its body; one of the second
version has another length in its header, and loses that much of its body. -/
theorem part_recovers_iff (part : MsnSlpMessagePart) (fits : part.info.Fits) :
    (Recovers part ↔ part.info.version = .one ∧ part.buffer.length < 2 ^ 31) ∧
      (RecoversContents part ↔ part.info.messageLen = 0 ∧ part.buffer.length < 2 ^ 31) := by
  obtain ⟨⟨anyHeader, footer⟩, body⟩ := part
  cases anyHeader with
  | v1 header =>
    refine ⟨(v1_recovers_iff header footer body).trans ?_,
      (v1_contents_iff header footer body).trans ?_⟩
    · exact (and_iff_right rfl).symm
    · exact (and_iff_right rfl).symm
  | v2 header =>
    refine ⟨iff_of_false (v2_not_recovers header footer body fits.1 fits.2) nofun,
      v2_contents_iff header footer body fits.1 fits.2⟩

/-- A part of the second version, with one byte in its body that its info counts. -/
def countedPart : MsnSlpMessagePart where
  info :=
    { header :=
        .v2 { zeroV2Header with opcode := 3, messageLen := 1, headerTlv := [⟨1, [5], by decide⟩] }
      footer := 0 }
  buffer := [7]

theorem countedPart_fits : countedPart.info.Fits :=
  ⟨⟨by decide, by decide⟩, ⟨nofun, by decide⟩⟩

theorem part_recovers_iff_counted :
    (Recovers countedPart ↔
        countedPart.info.version = .one ∧ countedPart.buffer.length < 2 ^ 31) ∧
      (RecoversContents countedPart ↔
        countedPart.info.messageLen = 0 ∧ countedPart.buffer.length < 2 ^ 31) :=
  part_recovers_iff countedPart countedPart_fits

/-- The byte is lost. -/
theorem countedPart_not_recovers :
    countedPart.info.Fits ∧ ¬Recovers countedPart ∧ ¬RecoversContents countedPart := by
  have fits := countedPart_fits
  refine ⟨fits, v2_not_recovers _ _ _ fits.1 fits.2, fun contents => ?_⟩
  have counted := ((v2_contents_iff _ _ _ fits.1 fits.2).mp contents).1
  exact absurd counted (by decide)

end Purple.Msn
