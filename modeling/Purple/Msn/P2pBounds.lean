/-
Which bytes the peer-to-peer protocol reads and writes.

A TLV that is cut by the end of the data is read behind it only where the length
that is declared for the list has room for it.
-/

import Purple.Msn.TlvWrite

namespace Purple.Msn

open List Option Memory Endian

/-- Walking so many declared bytes TLV by TLV never leaves the buffer. -/
def tlvsInside (bs : Bytes) (bsLen : Nat) : Bool :=
  match bsLen, bs with
  | 0, _ => true
  | _ + 1, [] => false
  | 1, _ :: _ => true
  | left + 2, [type] => left ≤ 1 && type = 0
  | left + 2, type :: length :: bs =>
    (left ≤ 1 && type = 0) || left < length.toNat ||
      (length.toNat ≤ bs.length && tlvsInside (bs.drop length.toNat) (left - length.toNat))
termination_by bsLen

variable {wire : Bytes}

theorem padding_iff (left : Nat) (type : UInt8) :
    ((left + 2 = 3 ∨ left + 2 = 2) ∧ type = 0) ↔ left ≤ 1 ∧ type = 0 := by
  apply and_congr_left
  intro _
  omega

theorem readTlvs_isSome (bs : Bytes) (bsLen : Nat) :
    (readTlvs bs bsLen).isSome = tlvsInside bs bsLen := by
  fun_induction tlvsInside bs bsLen with
  | case1 bs =>
    rw [readTlvs.eq_def, if_pos rfl]
    rfl
  | case2 left =>
    rw [readTlvs.eq_def, if_neg (Nat.succ_ne_zero left)]
    rfl
  | case3 type rest =>
    rw [readTlvs.eq_def]
    rfl
  | case4 left type =>
    rw [readTlvs.eq_def, if_neg (by omega)]
    dsimp only
    have single : ¬ left.succ.succ = 1 := by omega
    rw [if_neg single]
    by_cases padding : left ≤ 1 ∧ type = 0
    · rw [if_pos ((padding_iff left type).mpr padding), decide_eq_true padding.1, decide_eq_true padding.2]
      rfl
    · rw [if_neg fun same => padding ((padding_iff left type).mp same), ← Bool.decide_and, decide_eq_false padding]
      rfl
  | case5 left type length bs ih =>
    rw [readTlvs.eq_def, if_neg (by omega)]
    dsimp only
    have single : ¬ left.succ.succ = 1 := by omega
    have behind : left.succ.succ - 2 = left := rfl
    rw [if_neg single, behind]
    by_cases padding : left ≤ 1 ∧ type = 0
    · rw [if_pos ((padding_iff left type).mpr padding), decide_eq_true padding.1, decide_eq_true padding.2]
      rfl
    · rw [if_neg fun same => padding ((padding_iff left type).mp same), ← Bool.decide_and, decide_eq_false padding, Bool.false_or]
      by_cases short : left < length.toNat
      · rw [if_pos short, decide_eq_true short]
        rfl
      · rw [if_neg short, decide_eq_false short, Bool.false_or, ← ih]
        by_cases room : length.toNat ≤ bs.length
        · rw [if_pos room, decide_eq_true room, isSome_map, Bool.true_and]
        · rw [if_neg room, decide_eq_false room]
          rfl

theorem tlvsInside_declared {bs : Bytes} {bsLen : Nat} (room : bsLen ≤ bs.length) :
    tlvsInside bs bsLen = true := by
  fun_induction tlvsInside bs bsLen with
  | case1 bs => rfl
  | case2 left => exact absurd room (by exact Nat.not_succ_le_zero left)
  | case3 type rest => rfl
  | case4 left type =>
    rw [length_singleton] at room
    omega
  | case5 left type length bs ih =>
    rw [length_cons, length_cons] at room
    by_cases short : left < length.toNat
    · rw [decide_eq_true short, Bool.or_true, Bool.true_or]
    · rw [ih (by rw [List.length_drop]; omega), decide_eq_true (by omega : length.toNat ≤ bs.length),
        Bool.and_true, Bool.or_true]

theorem tlvlistRead_isSome (bs : Bytes) (bsLen : Nat) :
    (msnTlvlistRead bs bsLen).isSome = tlvsInside bs bsLen := by
  rw [msnTlvlistRead, isSome_map, readTlvs_isSome]

theorem tlvsFromWire_inside {length : UInt8} (old : List MsnTlv)
    (inside : 8 < length.toNat → tlvsInside wire (length.toNat - 8) = true) :
    ∃ list, tlvsFromWire old length wire = some (list, wire.drop (length.toNat - 8)) := by
  rw [tlvsFromWire]
  by_cases more : 8 < length.toNat
  · have read := inside more
    rw [← tlvlistRead_isSome] at read
    obtain ⟨list, found⟩ := isSome_iff_exists.mp read
    rw [if_pos more, found]
    exact ⟨list, rfl⟩
  · rw [if_neg more, Nat.sub_eq_zero_of_le (Nat.le_of_not_lt more)]
    exact ⟨old, rfl⟩

theorem tlvsFromWire_outside {length : UInt8} (old : List MsnTlv) (more : 8 < length.toNat)
    (outside : tlvsInside wire (length.toNat - 8) = false) :
    tlvsFromWire old length wire = none := by
  rw [← tlvlistRead_isSome, isSome_eq_false_iff, isNone_iff_eq_none] at outside
  rw [tlvsFromWire, if_pos more, outside]
  rfl

def dataHeaderInside (messageLen : Nat) : Bytes → Prop
  | [] => False
  | dataHeaderLen :: wire =>
    dataHeaderLen.toNat ≤ messageLen →
      7 ≤ wire.length ∧
        (8 < dataHeaderLen.toNat → tlvsInside (wire.drop 7) (dataHeaderLen.toNat - 8) = true)

/-- What the reads of a header of the second version need.  The data header is read
behind the first eight bytes, also when the header is declared to be shorter. -/
def headerInside : MsnP2PVersion → Bytes → Prop
  | .one, _ => True
  | .two, wire =>
    let headerLen := (wire.headD 0).toNat
    let messageLen := bigValue ((wire.drop 2).take 2)
    8 ≤ wire.length ∧
      (headerLen + messageLen + p2pPacketFooterSize ≤ wire.length → 0 < messageLen →
        dataHeaderInside messageLen (wire.drop (max 8 headerLen)))

theorem msnPop16be_some (room : 2 ≤ wire.length) :
    ∃ value : UInt16, msnPop16be wire = some (value, wire.drop 2) ∧
      value.toNat = bigValue (wire.take 2) := by
  rw [msnPop16be, pop, if_pos room]
  refine ⟨_, rfl, ?_⟩
  rcases wire with _ | ⟨high, _ | ⟨low, _⟩⟩
  · cases room
  · cases Nat.le_of_succ_le_succ room
  · have highFits := high.toNat_lt
    have lowFits := low.toNat_lt
    change (bigValue [high, low]) % 2 ^ 16 = bigValue [high, low]
    apply Nat.mod_eq_of_lt
    change low.toNat + 256 * (high.toNat + 256 * 0) < 2 ^ 16
    omega

theorem msnPop16be_none (short : wire.length < 2) : msnPop16be wire = none := by
  rw [msnPop16be, pop, if_neg (Nat.not_le_of_lt short)]
  rfl

theorem msnPop32be_some {wire : Bytes} (room : 4 ≤ wire.length) :
    ∃ value, msnPop32be wire = some (value, wire.drop 4) := by
  rw [msnPop32be, pop, if_pos room]
  exact ⟨_, rfl⟩

theorem msnPop32be_none (short : wire.length < 4) : msnPop32be wire = none := by
  rw [msnPop32be, pop, if_neg (Nat.not_le_of_lt short)]
  rfl

theorem dataFromWire_isSome_iff (header : MsnP2Pv2Header) (wire : Bytes) :
    (header.dataFromWire wire).isSome = true ↔
      (0 < header.messageLen.toNat → dataHeaderInside header.messageLen.toNat wire) := by
  rw [MsnP2Pv2Header.dataFromWire]
  by_cases data : 0 < header.messageLen.toNat
  · rw [if_pos data]
    refine Iff.trans ?_ (Iff.symm ⟨fun inside => inside data, fun inside _ => inside⟩)
    cases wire with
    | nil => exact ⟨fun read => Bool.noConfusion read, fun inside => absurd inside id⟩
    | cons dataHeaderLen wire =>
      rw [msnPop8, bind_eq_bind, bind_some, dataHeaderInside]
      dsimp only
      by_cases invalid : header.messageLen.toNat < dataHeaderLen.toNat
      · rw [if_pos invalid]
        exact ⟨fun _ valid => absurd valid (Nat.not_le_of_lt invalid), fun _ => rfl⟩
      · rw [if_neg invalid]
        have valid := Nat.le_of_not_lt invalid
        refine Iff.trans ?_ (Iff.symm ⟨fun inside => inside valid, fun inside _ => inside⟩)
        cases wire with
        | nil => exact ⟨fun read => Bool.noConfusion read, fun inside => absurd inside.1 (by decide)⟩
        | cons dataTf wire =>
          rw [msnPop8, bind_some, length_cons]
          by_cases number : wire.length < 2
          · simp only [msnPop16be_none number, bind_eq_bind, bind_none, isSome_none]
            exact ⟨fun read => Bool.noConfusion read, fun inside => by omega⟩
          obtain ⟨packageNumber, numberRead, _⟩ := msnPop16be_some (Nat.le_of_not_lt number)
          simp only [numberRead, bind_eq_bind, bind_some]
          have left : (wire.drop 2).length = wire.length - 2 := List.length_drop
          by_cases session : (wire.drop 2).length < 4
          · simp only [msnPop32be_none session, bind_none, isSome_none]
            exact ⟨fun read => Bool.noConfusion read, fun inside => by omega⟩
          obtain ⟨sessionId, sessionRead⟩ := msnPop32be_some (Nat.le_of_not_lt session)
          have behind : (wire.drop 2).drop 4 = (dataTf :: wire).drop 7 := by
            rw [drop_drop]
            rfl
          rw [behind] at sessionRead
          simp only [sessionRead, bind_some]
          constructor
          · intro read
            refine ⟨by omega, fun more => ?_⟩
            by_contra outside
            rw [tlvsFromWire_outside header.dataTlv more
              (Bool.eq_false_iff.mpr outside)] at read
            exact Bool.noConfusion read
          · rintro ⟨_, inside⟩
            obtain ⟨list, found⟩ := tlvsFromWire_inside header.dataTlv inside
            rw [found]
            rfl
  · rw [if_neg data]
    exact ⟨fun _ some => absurd some data, fun _ => rfl⟩

theorem fromWire_isSome_iff (header : MsnP2Pv2Header) (wire : Bytes) :
    (header.fromWire wire wire.length).isSome = true ↔ headerInside .two wire := by
  rw [MsnP2Pv2Header.fromWire, headerInside]
  match wire with
  | [] => exact ⟨fun read => Bool.noConfusion read, fun inside => absurd inside.1 (by decide)⟩
  | [_] => exact ⟨fun read => Bool.noConfusion read, fun inside => absurd inside.1 (by simp)⟩
  | headerLen :: opcode :: rest =>
    simp only [msnPop8, bind_eq_bind, bind_some, length_cons, headD_cons,
      drop_succ_cons, drop_zero]
    by_cases message : rest.length < 2
    · simp only [msnPop16be_none message, bind_none, isSome_none]
      exact ⟨fun read => Bool.noConfusion read, fun inside => by omega⟩
    obtain ⟨messageLen, messageRead, messageValue⟩ := msnPop16be_some (Nat.le_of_not_lt message)
    simp only [messageRead, bind_some, ← messageValue]
    have left : (rest.drop 2).length = rest.length - 2 := List.length_drop
    by_cases base : (rest.drop 2).length < 4
    · simp only [msnPop32be_none base, bind_none, isSome_none]
      exact ⟨fun read => Bool.noConfusion read, fun inside => by omega⟩
    obtain ⟨baseId, baseRead⟩ := msnPop32be_some (Nat.le_of_not_lt base)
    simp only [baseRead, bind_some]
    refine Iff.trans ?_ (Iff.symm ⟨fun inside => inside.2, fun inside => ⟨by omega, inside⟩⟩)
    by_cases invalid : rest.length + 1 + 1 <
        headerLen.toNat + messageLen.toNat + p2pPacketFooterSize
    · rw [if_pos invalid]
      exact ⟨fun _ valid => absurd invalid (Nat.not_lt_of_le valid), fun _ => rfl⟩
    · rw [if_neg invalid]
      have valid := Nat.le_of_not_lt invalid
      refine Iff.trans ?_ (Iff.symm ⟨fun inside => inside valid, fun inside _ => inside⟩)
      have room : headerLen.toNat - 8 ≤ ((rest.drop 2).drop 4).length := by
        rw [p2pPacketFooterSize] at valid
        rw [List.length_drop, left]
        omega
      obtain ⟨list, found⟩ := tlvsFromWire_inside header.headerTlv (fun _ => tlvsInside_declared room)
      have behind : ((rest.drop 2).drop 4).drop (headerLen.toNat - 8) =
          (headerLen :: opcode :: rest).drop (max 8 headerLen.toNat) := by
        have offset : max 8 headerLen.toNat = 2 + 4 + (headerLen.toNat - 8) + 1 + 1 := by omega
        rw [offset, drop_succ_cons, drop_succ_cons, drop_drop, drop_drop,
          Nat.add_assoc]
      rw [behind] at found
      simp only [found, bind_some]
      exact dataFromWire_isSome_iff _ _

theorem dataFromWire_len {header read : MsnP2Pv2Header} {len : Nat}
    (done : header.dataFromWire wire = some (read, len)) :
    len = 0 ∨ len = header.headerLen.toNat + header.messageLen.toNat := by
  rw [MsnP2Pv2Header.dataFromWire] at done
  by_cases data : 0 < header.messageLen.toNat
  · rw [if_pos data] at done
    obtain ⟨⟨dataHeaderLen, wire⟩, _, done⟩ := bind_eq_some_iff.mp done
    dsimp only at done
    by_cases invalid : header.messageLen.toNat < dataHeaderLen.toNat
    · rw [if_pos invalid] at done
      cases done
      exact .inl rfl
    · rw [if_neg invalid] at done
      obtain ⟨_, _, done⟩ := bind_eq_some_iff.mp done
      obtain ⟨_, _, done⟩ := bind_eq_some_iff.mp done
      obtain ⟨_, _, done⟩ := bind_eq_some_iff.mp done
      obtain ⟨_, _, done⟩ := bind_eq_some_iff.mp done
      cases done
      exact .inr rfl
  · rw [if_neg data] at done
    cases done
    exact .inr rfl

theorem fromWire_len {header read : MsnP2Pv2Header} {maxLen len : Nat}
    (done : header.fromWire wire maxLen = some (read, len)) :
    len = 0 ∨ len + p2pPacketFooterSize ≤ maxLen := by
  rw [MsnP2Pv2Header.fromWire] at done
  obtain ⟨⟨headerLen, wire⟩, _, done⟩ := bind_eq_some_iff.mp done
  obtain ⟨_, _, done⟩ := bind_eq_some_iff.mp done
  obtain ⟨⟨messageLen, wire⟩, _, done⟩ := bind_eq_some_iff.mp done
  obtain ⟨_, _, done⟩ := bind_eq_some_iff.mp done
  dsimp only at done
  by_cases invalid : maxLen < headerLen.toNat + messageLen.toNat + p2pPacketFooterSize
  · rw [if_pos invalid] at done
    cases done
    exact .inl rfl
  · rw [if_neg invalid] at done
    obtain ⟨_, _, done⟩ := bind_eq_some_iff.mp done
    rcases dataFromWire_len done with none | whole
    · exact .inl none
    · rw [whole]
      exact .inr (Nat.le_of_not_lt invalid)

theorem msnPop32le_some (wire : Bytes) (room : 4 ≤ wire.length) :
    ∃ read, msnPop32le wire = some read ∧ read.2.length + 4 = wire.length := by
  rw [msnPop32le, pop, if_pos room]
  refine ⟨_, rfl, ?_⟩
  rw [List.length_drop]
  omega

theorem msnPop64le_some (wire : Bytes) (room : 8 ≤ wire.length) :
    ∃ read, msnPop64le wire = some read ∧ read.2.length + 8 = wire.length := by
  rw [msnPop64le, pop, if_pos room]
  refine ⟨_, rfl, ?_⟩
  rw [List.length_drop]
  omega

theorem v1_fromWire_isSome (room : p2pPacketHeaderSize ≤ wire.length) :
    (MsnP2PHeader.fromWire wire).isSome = true := by
  rw [p2pPacketHeaderSize] at room
  obtain ⟨sessionId, sessionRead, sessionLeft⟩ := msnPop32le_some wire (by omega)
  obtain ⟨id, idRead, idLeft⟩ := msnPop32le_some sessionId.2 (by omega)
  obtain ⟨offset, offsetRead, offsetLeft⟩ := msnPop64le_some id.2 (by omega)
  obtain ⟨totalSize, totalRead, totalLeft⟩ := msnPop64le_some offset.2 (by omega)
  obtain ⟨length, lengthRead, lengthLeft⟩ := msnPop32le_some totalSize.2 (by omega)
  obtain ⟨flags, flagsRead, flagsLeft⟩ := msnPop32le_some length.2 (by omega)
  obtain ⟨ackId, ackRead, ackLeft⟩ := msnPop32le_some flags.2 (by omega)
  obtain ⟨ackSubId, ackSubRead, ackSubLeft⟩ := msnPop32le_some ackId.2 (by omega)
  obtain ⟨ackSize, sizeRead, _⟩ := msnPop64le_some ackSubId.2 (by omega)
  simp only [MsnP2PHeader.fromWire, sessionRead, idRead, offsetRead, totalRead, lengthRead,
    flagsRead, ackRead, ackSubRead, sizeRead, bind_eq_bind, bind_some]
  rfl

theorem headerFromWire_isSome_iff (info : MsnP2PInfo) (wire : Bytes) :
    (msnP2pHeaderFromWire info wire wire.length).isSome = true ↔
      headerInside info.version wire := by
  rw [msnP2pHeaderFromWire, MsnP2PInfo.version]
  cases info.header with
  | v1 header =>
    refine ⟨fun _ => trivial, fun _ => ?_⟩
    dsimp only
    by_cases short : wire.length < p2pPacketHeaderSize
    · rw [if_pos short]
      rfl
    · rw [if_neg short, isSome_map]
      exact v1_fromWire_isSome (Nat.le_of_not_lt short)
  | v2 header =>
    dsimp only
    rw [isSome_map]
    exact fromWire_isSome_iff header wire

/-- The length of a header that was read leaves room for the footer, up to the four bytes
behind a header of the first version. -/
theorem headerFromWire_len {version : MsnP2PVersion} {read : MsnP2PInfo × Nat}
    (done : msnP2pHeaderFromWire (msnP2pInfoNew version) wire wire.length = some read) :
    read.2 ≤ wire.length := by
  rw [msnP2pHeaderFromWire] at done
  cases version with
  | one =>
    change (if wire.length < p2pPacketHeaderSize then _ else _) = _ at done
    by_cases short : wire.length < p2pPacketHeaderSize
    · rw [if_pos short] at done
      cases done
      exact Nat.zero_le _
    · rw [if_neg short] at done
      obtain ⟨_, _, rfl⟩ := map_eq_some_iff.mp done
      exact Nat.le_of_not_lt short
  | two =>
    obtain ⟨⟨_, len⟩, found, rfl⟩ := map_eq_some_iff.mp done
    change len ≤ wire.length
    rcases fromWire_len found with none | whole
    · omega
    · omega

theorem bodyLen_bound {dataLen len : Nat} (read : len ≤ dataLen) :
    bodyLen dataLen len < 0 ∨ (bodyLen dataLen len).toNat + p2pPacketFooterSize ≤ dataLen - len := by
  rw [bodyLen, Int.bmod_def, p2pPacketFooterSize]
  omega

theorem slpmsgpartRest_isSome (info : MsnP2PInfo) {data : Bytes} {length : Int}
    (inside : length < 0 ∨ length.toNat + p2pPacketFooterSize ≤ data.length) :
    (msnSlpmsgpartRest info data length).isSome = true := by
  rw [msnSlpmsgpartRest]
  by_cases negative : length < 0
  · rw [if_pos negative]
    rfl
  · rcases inside with below | room
    · exact absurd below negative
    rw [p2pPacketFooterSize] at room
    obtain ⟨footer, read⟩ := @msnPop32be_some (data.drop length.toNat) (by
      rw [List.length_drop]
      omega)
    rw [if_neg negative, if_pos (by omega), read]
    rfl

theorem slpmsgpartNewFromData_isSome_iff (p2p : MsnP2PVersion) (data : Bytes) :
    (msnSlpmsgpartNewFromData p2p data).isSome = true ↔ headerInside p2p data := by
  have same : (msnP2pInfoNew p2p).version = p2p := by cases p2p <;> rfl
  have header := headerFromWire_isSome_iff (msnP2pInfoNew p2p) data
  rw [same] at header
  rw [← header, msnSlpmsgpartNewFromData]
  cases found : msnP2pHeaderFromWire (msnP2pInfoNew p2p) data data.length with
  | none => exact Iff.rfl
  | some read =>
    refine ⟨fun _ => rfl, fun _ => ?_⟩
    rw [bind_some]
    by_cases invalid : read.2 = 0
    · rw [if_pos invalid]
      rfl
    · rw [if_neg invalid, isSome_map]
      apply slpmsgpartRest_isSome
      rw [List.length_drop]
      exact bodyLen_bound (headerFromWire_len found)

/-- Nothing is read behind the data and nothing is written behind the allocation exactly
where the headers lie in the data and no longest TLV follows a full buffer. -/
theorem p2p_inside_iff (info : MsnP2PInfo) (wire : Bytes) (list : List MsnTlv) :
    ((msnP2pHeaderFromWire info wire wire.length).isSome = true ∧
      (msnTlvlistRead wire wire.length).isSome = true ∧
        (msnSlpmsgpartNewFromData info.version wire).isSome = true ∧
          (tlvlistWriteBuf list).isSome = true) ↔
      headerInside info.version wire ∧ writesInside [] list := by
  rw [headerFromWire_isSome_iff, slpmsgpartNewFromData_isSome_iff, tlvlistWriteBuf_isSome_iff,
    tlvlistRead_isSome, tlvsInside_declared (Nat.le_refl _)]
  constructor
  · rintro ⟨header, _, _, writes⟩
    exact ⟨header, writes⟩
  · rintro ⟨header, writes⟩
    exact ⟨header, rfl, header, writes⟩

def shortMessage : Bytes := [8, 0, 0, 1, 0, 0, 0, 0, 0, 0, 0, 0, 0]

def zerosTlv (type : UInt8) (count : Nat) (short : count < 256) : MsnTlv where
  type := type
  value := List.replicate count 0
  fits := length_replicate ▸ short

def fullList : List MsnTlv := [zerosTlv 1 254 (by decide), zerosTlv 2 255 (by decide)]

theorem p2p_outside :
    (msnP2pHeaderFromWire (msnP2pInfoNew .two) shortMessage shortMessage.length).isSome = false ∧
      (msnSlpmsgpartNewFromData .two shortMessage).isSome = false ∧
        (tlvlistWriteBuf fullList).isSome = false := by
  refine ⟨rfl, rfl, ?_⟩
  apply Bool.eq_false_iff.mpr
  intro written
  have inside := (tlvlistWriteBuf_isSome_iff fullList).mp written
  have full : ([zerosTlv 1 254 (by decide)].flatMap tlvBytes).length = 256 := by
    rw [flatMap_cons, flatMap_nil, append_nil, tlvBytes_length, zerosTlv,
      length_replicate]
  refine inside [zerosTlv 1 254 (by decide)] (zerosTlv 2 255 (by decide)) [] rfl ⟨?_, ?_, ?_⟩
  · exact length_replicate
  · exact cons_ne_nil _ _
  · rw [nil_append, full]

end Purple.Msn
