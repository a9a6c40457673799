/-
The frames that are sent are the frames that are parsed.
-/

import Purple.Oscar.FlapConnection

namespace Purple.Oscar

open List CircBuffer

def flapHeader (frame : Parsed) : Bytes :=
  [flapStart, frame.channel] ++ aimutilPut16 frame.seqnum ++
    aimutilPut16 (UInt16.ofNat frame.payload.length)

def encodeFlap (frame : Parsed) : Bytes := flapHeader frame ++ frame.payload

@[simp] theorem flapHeader_length (frame : Parsed) : (flapHeader frame).length = 6 := rfl

theorem incomingOf_header (frame : Parsed) :
    incomingOf (flapHeader frame) =
      { channel := frame.channel, seqnum := frame.seqnum
        len := UInt16.ofNat frame.payload.length, data := [] } := by
  have seqnum : aimutilGet16 ((flapHeader frame).drop 2) = frame.seqnum := get16_put16 _ _
  have len : aimutilGet16 ((flapHeader frame).drop 4) = UInt16.ofNat frame.payload.length := by
    have last := get16_put16 (UInt16.ofNat frame.payload.length) []
    rw [append_nil] at last
    exact last
  rw [incomingOf, seqnum, len]
  rfl

def numbered (sent : List (UInt8 × Payload)) : List Parsed :=
  sent.mapIdx fun index frame =>
    { channel := frame.1, seqnum := UInt16.ofNat (index + 1), payload := frame.2.bytes }

theorem numbered_concat (sent : List (UInt8 × Payload)) (channel : UInt8) (payload : Payload) :
    numbered (sent ++ [(channel, payload)]) =
      numbered sent ++ [{ channel, seqnum := UInt16.ofNat (sent.length + 1)
                          payload := payload.bytes }] :=
  mapIdx_concat

theorem numbered_fits {sent : List (UInt8 × Payload)} {frame : Parsed}
    (member : frame ∈ numbered sent) : frame.payload.length < 65536 := by
  obtain ⟨index, bound, same⟩ := mem_mapIdx.mp member
  rw [← same]
  exact sent[index].2.fits

theorem loads_front {buf : PurpleCircBuffer} {queue : Bytes} (holds : Holds buf queue) {count : Nat}
    (readable : count ≤ purpleCircBufferGetMaxRead buf) :
    buf.buffer.load buf.outOffset count = some ((queue.take count).map some) := by
  obtain ⟨room, sized, cells⟩ := (Memory.Block.load_eq_some_iff _ _ _ _).mp (getMaxRead_loads holds)
  rw [Memory.Block.load_eq_some_iff]
  rw [length_map, length_take] at sized
  refine ⟨by omega, ?_, fun index within => ?_⟩
  · rw [length_map, length_take]
    omega
  · rw [← cells index (by omega), getElem?_map, getElem?_map, getElem?_take,
      getElem?_take, if_pos within, if_pos (by omega)]

theorem sendCb_holds {conn : FlapSender} {queue : Bytes} (holds : Holds conn.bufferOutgoing queue)
    (room : Nat) :
    ∃ after bytes left, sendCb conn room = some (after, bytes) ∧ queue = bytes ++ left ∧
      Holds after.bufferOutgoing left ∧ after.seqnumOut = conn.seqnumOut ∧
      (after.watcherOutgoing = false → left = [] ∨ conn.watcherOutgoing = false) := by
  unfold sendCb
  by_cases nothing : purpleCircBufferGetMaxRead conn.bufferOutgoing = 0
  · have empty := (getMaxRead_eq_zero_iff holds).mp nothing
    exact ⟨{ conn with watcherOutgoing := false }, [], queue, if_pos nothing, rfl, holds, rfl,
      fun _ => .inl empty⟩
  · by_cases full : room = 0
    · refine ⟨conn, [], queue, ?_, rfl, holds, rfl, .inr⟩
      simp only [if_neg nothing, if_pos full]
    · have readable : min room (purpleCircBufferGetMaxRead conn.bufferOutgoing) ≤
          purpleCircBufferGetMaxRead conn.bufferOutgoing := Nat.min_le_right _ _
      refine ⟨{ conn with bufferOutgoing := (purpleCircBufferMarkRead conn.bufferOutgoing
        (min room (purpleCircBufferGetMaxRead conn.bufferOutgoing))).2 }, _, _, ?_,
        (take_append_drop _ queue).symm, markRead_holds holds readable, rfl, .inr⟩
      simp only [if_neg nothing, if_neg full, loads_front holds readable, Option.bind_some,
        Memory.mapM_stored, Option.map_some]

theorem putbs_payload (channel : UInt8) (payload : Payload) (spare : Bytes) {bs : ByteStream}
    (room : payload.bytes.length ≤ bs.bytesLeft) :
    (bs.putbs (payloadFrame channel payload spare).data.rewind payload.bytes.length).1 =
      bs.putraw payload.bytes := by
  have source : (payloadFrame channel payload spare).data.rewind.rest.take payload.bytes.length =
      payload.bytes := take_left' rfl
  have available : payload.bytes.length ≤
      (payloadFrame channel payload spare).data.rewind.bytesLeft := by
    change _ ≤ (payload.bytes ++ spare).length - 0
    rw [length_append]
    omega
  rw [ByteStream.putbs, if_pos ⟨available, room⟩, source]

theorem frameStream_encodes (fresh : Fresh) (channel : UInt8) (seqnum : UInt16) (payload : Payload)
    (spare : Bytes) :
    frameStream fresh { payloadFrame channel payload spare with seqnum } =
      { data := encodeFlap { channel, seqnum, payload := payload.bytes }
        offset := 6 + payload.bytes.length } := by
  have new := filled_new fresh (6 + payload.bytes.length)
  have start := @ByteStream.filled_putraw _ [] [flapStart] _ new
    (by rw [length_singleton, length_nil]; omega)
  have channelled := @ByteStream.filled_putraw _ [flapStart] [channel] _ start
    (by rw [length_singleton, length_singleton]; omega)
  have typed := @ByteStream.filled_putraw _ [flapStart, channel] (aimutilPut16 seqnum) _ channelled
    (by rw [aimutilPut16_length, length_cons, length_singleton]; omega)
  have headed := @ByteStream.filled_putraw _ _
    (aimutilPut16 (UInt16.ofNat payload.bytes.length)) _ typed
    (by
      rw [aimutilPut16_length, length_append, aimutilPut16_length, length_cons,
        length_singleton]
      omega)
  have six : ([flapStart, channel] ++ aimutilPut16 seqnum ++
      aimutilPut16 (UInt16.ofNat payload.bytes.length)).length = 6 := rfl
  have whole := @ByteStream.filled_putraw _ _ payload.bytes _ headed
    (Nat.le_of_eq (congrArg (· + payload.bytes.length) six))
  have left : payload.bytes.length ≤ (((((byteStreamNew fresh (6 + payload.bytes.length)).putraw
      [flapStart]).putraw [channel]).putraw (aimutilPut16 seqnum)).putraw
        (aimutilPut16 (UInt16.ofNat payload.bytes.length))).bytesLeft := by
    rw [ByteStream.bytesLeft, headed.size, headed.offset, six]
    omega
  have size : ([flapStart, channel] ++ aimutilPut16 seqnum ++
      aimutilPut16 (UInt16.ofNat payload.bytes.length) ++ payload.bytes).length =
      6 + payload.bytes.length := by
    rw [length_append, six]
  have copied := ByteStream.filled_whole whole size
  rw [size] at copied
  exact (putbs_payload channel payload spare left).trans copied

theorem flapConnectionSend_holds {conn : FlapSender} {queue : Bytes}
    (holds : Holds conn.bufferOutgoing queue) (channel : UInt8) (payload : Payload)
    (spare : Bytes) (fresh : Fresh) (room : Nat)
    (steady : ¬(conn.bufferOutgoing.bufused = 0 ∧
      conn.bufferOutgoing.inOffset ≠ conn.bufferOutgoing.outOffset ∧
      conn.bufferOutgoing.buflen < 6 + payload.bytes.length)) :
    ∃ after bytes left,
      flapConnectionSend fresh conn (payloadFrame channel payload spare) room =
        some (after, bytes) ∧
      queue ++ encodeFlap { channel, seqnum := conn.seqnumOut + 1, payload := payload.bytes } =
        bytes ++ left ∧
      Holds after.bufferOutgoing left ∧ after.seqnumOut = conn.seqnumOut + 1 ∧
      (after.watcherOutgoing = false → left = []) := by
  generalize encoded : encodeFlap { channel, seqnum := conn.seqnumOut + 1, payload := payload.bytes } = text
  have stream := frameStream_encodes fresh channel (conn.seqnumOut + 1) payload spare
  rw [encoded] at stream
  have size : text.length = 6 + payload.bytes.length := by
    rw [← encoded, encodeFlap, length_append, flapHeader_length]
  rw [← size] at steady
  obtain ⟨appended, append, after⟩ := purpleCircBufferAppend_holds holds steady
  have sends : flapConnectionSend fresh conn (payloadFrame channel payload spare) room =
      if conn.watcherOutgoing then
        some ({ conn with bufferOutgoing := appended, seqnumOut := conn.seqnumOut + 1 }, [])
      else sendCb
        { conn with
          bufferOutgoing := appended
          seqnumOut := conn.seqnumOut + 1
          watcherOutgoing := true } room := by
    unfold flapConnectionSend sendframeFlap flapConnectionSendByteStream
    simp only [stream, ByteStream.rewind, ByteStream.bytesLeft, size, Nat.sub_zero,
      Nat.lt_irrefl, if_false]
    rw [if_neg (by omega), take_of_length_le (Nat.le_of_eq size), append]
    rfl
  by_cases watching : conn.watcherOutgoing = true
  · rw [if_pos watching] at sends
    exact ⟨_, _, queue ++ text, sends, rfl, after, rfl, fun off => absurd (watching.symm.trans off) (by decide)⟩
  · rw [if_neg watching] at sends
    obtain ⟨final, bytes, left, sent, split, finalHolds, number, watched⟩ :=
      @sendCb_holds { conn with
        bufferOutgoing := appended
        seqnumOut := conn.seqnumOut + 1
        watcherOutgoing := true } _ after room
    exact ⟨final, bytes, left, sends.trans sent, split, finalHolds, number,
      fun off => (watched off).resolve_right Bool.noConfusion⟩

def begun (conn : FlapReceiver) : Bytes :=
  conn.header ++ ((conn.incoming.map Incoming.data).getD [])

/-- The header is incomplete, or it announces more than has arrived. -/
def Stage (conn : FlapReceiver) : Prop :=
  match conn.incoming with
  | none => conn.header.length < 6
  | some frame =>
    conn.header.length = 6 ∧ frame = { incomingOf conn.header with data := frame.data } ∧
      frame.data.length < frame.len.toNat

/-- With `tail`, which is still to be sent, the frames in `rest` are to come. -/
structure Awaits (conn : FlapReceiver) (tail : Bytes) (rest : List Parsed) : Prop where
  bytes : begun conn ++ conn.wire ++ tail = rest.flatMap encodeFlap
  stage : Stage conn
  alive : conn.destroyScheduled = false

theorem header_first {header behind : Bytes} {rest : List Parsed} (six : header.length = 6)
    (bytes : header ++ behind = rest.flatMap encodeFlap) :
    ∃ frame later, rest = frame :: later ∧ header = flapHeader frame ∧
      behind = frame.payload ++ later.flatMap encodeFlap := by
  cases rest with
  | nil =>
    have empty := congrArg List.length bytes
    rw [length_append, six, flatMap_nil, length_nil] at empty
    omega
  | cons frame later =>
    rw [flatMap_cons, encodeFlap, append_assoc] at bytes
    obtain ⟨headers, behinds⟩ := append_inj bytes six
    exact ⟨frame, later, rfl, headers, behinds⟩

theorem length_toNat {bytes : Bytes} (fits : bytes.length < 65536) :
    (UInt16.ofNat bytes.length).toNat = bytes.length := by
  rw [UInt16.toNat_ofNat', Nat.mod_eq_of_lt fits]

theorem payload_first {frame : Parsed} {later : List Parsed} {data behind : Bytes}
    (fits : frame.payload.length < 65536)
    (full : data.length = (incomingOf (flapHeader frame)).len.toNat)
    (bytes : data ++ behind = frame.payload ++ later.flatMap encodeFlap) :
    data = frame.payload ∧ behind = later.flatMap encodeFlap := by
  rw [incomingOf_header, length_toNat fits] at full
  exact append_inj bytes full

theorem flapConnectionRecv_awaits {conn : FlapReceiver} {tail : Bytes} {rest : List Parsed}
    (fits : ∀ frame ∈ rest, frame.payload.length < 65536) (awaits : Awaits conn tail rest)
    (offers : List Nat) :
    ∃ done later, rest = done ++ later ∧
      (flapConnectionRecv offers conn).parsed = conn.parsed ++ done ∧
      Awaits (flapConnectionRecv offers conn) tail later := by
  induction offers generalizing conn rest with
  | nil => exact ⟨[], rest, rfl, (append_nil _).symm, awaits⟩
  | cons offer offers ih =>
    have unread := awaits
    obtain ⟨header, incoming, destroyScheduled, wire, parsed⟩ := conn
    obtain ⟨bytes, stage, alive⟩ := awaits
    cases incoming with
    | none =>
      change header ++ [] ++ wire ++ tail = _ at bytes
      change header.length < 6 at stage
      rw [append_nil, append_assoc] at bytes
      generalize amount : min offer (min (6 - header.length) wire.length) = read
      have within : read ≤ 6 - header.length ∧ read ≤ wire.length := by omega
      have moved : (header ++ wire.take read) ++ (wire.drop read ++ tail) =
          rest.flatMap encodeFlap := by
        rw [← bytes, append_assoc, ← append_assoc (wire.take read),
          take_append_drop]
      have length : (header ++ wire.take read).length = header.length + read := by
        rw [length_append, length_take, Nat.min_eq_left within.2]
      unfold flapConnectionRecv
      simp only [amount]
      by_cases nothing : read = 0
      · rw [if_pos nothing]
        exact ⟨[], rest, rfl, (append_nil _).symm, unread⟩
      rw [if_neg nothing]
      by_cases short : (header ++ wire.take read).length < 6
      · rw [if_pos short]
        refine ⟨[], rest, rfl, (append_nil _).symm, ?_, short, alive⟩
        change (header ++ wire.take read) ++ [] ++ wire.drop read ++ tail = _
        rw [append_nil, append_assoc, moved]
      · obtain ⟨frame, later, split, isHeader, behind⟩ := header_first (by omega) moved
        have laterFits : ∀ other ∈ later, other.payload.length < 65536 := by
          intro other member
          refine fits other ?_
          rw [split]
          exact mem_cons_of_mem _ member
        have own : frame.payload.length < 65536 := by
          refine fits frame ?_
          rw [split]
          exact mem_cons_self
        have started : (header ++ wire.take read).head? = some flapStart := by
          rw [isHeader]
          rfl
        rw [if_neg short, if_neg (not_not.mpr started), isHeader, incomingOf_header]
        by_cases empty : UInt16.ofNat frame.payload.length = 0
        · have noPayload : frame.payload = [] := by
            have zero := congrArg UInt16.toNat empty
            rw [length_toNat own] at zero
            exact length_eq_zero_iff.mp zero
          rw [if_pos empty]
          rw [noPayload, nil_append] at behind
          have handled : Awaits (handleFlap
              { header := flapHeader frame, incoming := none, destroyScheduled
                wire := wire.drop read, parsed }
              { channel := frame.channel, seqnum := frame.seqnum
                len := UInt16.ofNat frame.payload.length, data := [] }) tail later :=
            ⟨behind, Nat.succ_pos 5, alive⟩
          obtain ⟨done, last, parts, reached, next⟩ := ih laterFits handled
          refine ⟨frame :: done, last, ?_, ?_, next⟩
          · rw [split, parts]
            rfl
          · rw [reached, handleFlap, append_assoc]
            have same : frame = { channel := frame.channel, seqnum := frame.seqnum
                                  payload := [] } := by
              rw [← noPayload]
            rw [same]
            rfl
        · rw [if_neg empty]
          refine ih fits ⟨?_, ⟨rfl, ?_, ?_⟩, alive⟩
          · change flapHeader frame ++ [] ++ wire.drop read ++ tail = _
            rw [append_nil, append_assoc, ← isHeader, moved]
          · rw [incomingOf_header]
          · exact Nat.pos_of_ne_zero fun zero => empty (UInt16.toNat_inj.mp zero)
    | some frame =>
      obtain ⟨six, same, room⟩ := stage
      change header ++ frame.data ++ wire ++ tail = _ at bytes
      rw [append_assoc, append_assoc] at bytes
      obtain ⟨first, later, split, isHeader, behind⟩ := header_first six bytes
      generalize amount :
        min offer (min (frame.len.toNat - frame.data.length) wire.length) = read
      have within : read ≤ wire.length := by omega
      have moved : (frame.data ++ wire.take read) ++ (wire.drop read ++ tail) =
          first.payload ++ later.flatMap encodeFlap := by
        rw [← behind, append_assoc, ← append_assoc (wire.take read),
          take_append_drop]
      have length : (frame.data ++ wire.take read).length = frame.data.length + read := by
        rw [length_append, length_take, Nat.min_eq_left within]
      have announced : frame.len = (incomingOf header).len := by rw [same]
      unfold flapConnectionRecv
      simp only [amount]
      by_cases nothing : read = 0
      · rw [if_pos nothing]
        exact ⟨[], rest, rfl, (append_nil _).symm, unread⟩
      rw [if_neg nothing]
      by_cases short : (frame.data ++ wire.take read).length < frame.len.toNat
      · rw [if_pos short]
        refine ⟨[], rest, rfl, (append_nil _).symm, ?_, ⟨six, ?_, short⟩, alive⟩
        · change header ++ (frame.data ++ wire.take read) ++ wire.drop read ++ tail = _
          rw [append_assoc, append_assoc, moved, split, flatMap_cons,
            encodeFlap, ← isHeader, append_assoc]
        · rw [same]
      · have own : first.payload.length < 65536 := by
          refine fits first ?_
          rw [split]
          exact mem_cons_self
        have laterFits : ∀ other ∈ later, other.payload.length < 65536 := by
          intro other member
          refine fits other ?_
          rw [split]
          exact mem_cons_of_mem _ member
        have full : (frame.data ++ wire.take read).length =
            (incomingOf (flapHeader first)).len.toNat := by
          rw [← isHeader, ← announced]
          omega
        obtain ⟨payload, others⟩ := payload_first own full moved
        rw [if_neg short, payload]
        have handled : Awaits (handleFlap
            { header, incoming := some frame, destroyScheduled
              wire := wire.drop read, parsed }
            { frame with data := first.payload }) tail later :=
          ⟨others, Nat.succ_pos 5, alive⟩
        obtain ⟨done, last, parts, reached, next⟩ := ih laterFits handled
        refine ⟨first :: done, last, ?_, ?_, next⟩
        · rw [split, parts]
          rfl
        · rw [reached, handleFlap, append_assoc, same, isHeader, incomingOf_header]
          rfl

end Purple.Oscar
