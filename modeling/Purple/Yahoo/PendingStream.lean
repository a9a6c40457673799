/-
Reading from a Yahoo server, from `yahoo_pending` of libymsg.c, and what the packets
of a byte stream are.

The packets that `yahoo_packet_process` is given are recorded.  Its handlers do not
touch the queue.  An access outside the queue, or to a byte that was never received,
makes the operation `none`.

The bytes are examined from the front: too few of them wait, those that start no packet
are skipped up to the next `Y`, a packet is taken whole.  Garbage that was skipped early
is garbage that would have been skipped later, so the same packets come of the whole
stream and of its parts; what is kept of it may differ in front of the first `Y`.
-/

import Purple.Yahoo.PacketReading

namespace Purple.Yahoo

open List CString Endian Memory

/-- The part of a connection that reads; `lost` counts the errors it has reported. -/
structure YahooData where
  rxqueue : Block UInt8
  rxlen : Nat
  processed : List YahooPacket
  lost : Nat

/-- What one `read` into the 1024 bytes on the stack returns. -/
inductive Reading where
  | data (bytes : Bytes) (positive : bytes ≠ []) (short : bytes.length ≤ 1024)
  | again
  | failed
  | closed

def queued (yd : YahooData) (pos count : Nat) : Option Bytes :=
  if pos + count ≤ yd.rxlen then
    (yd.rxqueue.load pos count).bind fun cells => cells.mapM id
  else none

/-- `memchr` for `Y`, from the second byte on. -/
def findStart (bytes : Bytes) : Option Nat :=
  if (89 : UInt8) ∈ bytes.drop 1 then some (((bytes.drop 1).takeWhile (· != 89)).length + 1) else none

/-- The queue does not start with a packet: up to the next `Y` it is dropped, or else all
of it, and then the loop is left. -/
def resynchronise (yd : YahooData) : Option (Bool × YahooData) :=
  (queued yd 0 yd.rxlen).bind fun bytes =>
    match findStart bytes with
    | some start =>
      let rxlen := yd.rxlen - start
      ((yd.rxqueue.load start rxlen).bind fun tail => yd.rxqueue.store 0 tail).map
        fun rxqueue => (true, { yd with rxqueue, rxlen })
    | none => some (false, { yd with rxqueue := [], rxlen := 0 })

def takePacket (yd : YahooData) (pktlen : Nat) : Option YahooData := do
  let service ← queued yd 10 2
  let status ← queued yd 12 4
  let id ← queued yd 16 4
  let data ← queued yd yahooPacketHdrlen pktlen
  let pkt ← yahooPacketRead
    (yahooPacketNew (UInt16.ofNat (bigValue service)) (UInt32.ofNat (bigValue status)).toInt32
      (UInt32.ofNat (bigValue id))) data pktlen
  let rxlen := yd.rxlen - (yahooPacketHdrlen + pktlen)
  let rxqueue ←
    if rxlen ≠ 0 then yd.rxqueue.load (yahooPacketHdrlen + pktlen) rxlen else some []
  return { yd with rxqueue, rxlen, processed := yd.processed ++ [pkt] }

def pendingRound (yd : YahooData) : Option (Bool × YahooData) :=
  if yd.rxlen < yahooPacketHdrlen then some (false, yd)
  else
    (queued yd 0 4).bind fun magic =>
      if magic ≠ ascii "YMSG" then resynchronise yd
      else
        (queued yd 8 2).bind fun length =>
          if yd.rxlen < yahooPacketHdrlen + bigValue length then some (false, yd)
          else (takePacket yd (bigValue length)).map fun yd => (true, yd)

/-- The loop.  Every round before the last takes at least one byte. -/
def pendingRounds : Nat → YahooData → Option YahooData
  | 0, _ => none
  | rounds + 1, yd =>
    (pendingRound yd).bind fun round =>
      if round.1 then pendingRounds rounds round.2 else some round.2

def connectionError (yd : YahooData) : YahooData := { yd with lost := yd.lost + 1 }

def yahooPending (yd : YahooData) : Reading → Option YahooData
  | .data bytes _ _ =>
    ((yd.rxqueue.realloc (bytes.length + yd.rxlen)).store yd.rxlen (bytes.map some)).bind
      fun rxqueue =>
        let rxlen := yd.rxlen + bytes.length
        pendingRounds (rxlen + 1) { yd with rxqueue, rxlen }
  | .again => some yd
  | .failed => some (connectionError yd)
  | .closed => some (connectionError yd)

def YahooData.start : YahooData := { rxqueue := [], rxlen := 0, processed := [], lost := 0 }

structure Frame where
  service : Bytes
  status : Bytes
  id : Bytes
  data : Bytes
deriving DecidableEq, Repr

def Frame.head (frame : Frame) : YahooPacket :=
  yahooPacketNew (UInt16.ofNat (bigValue frame.service))
    (UInt32.ofNat (bigValue frame.status)).toInt32 (UInt32.ofNat (bigValue frame.id))

def Frame.packet (frame : Frame) : YahooPacket :=
  (yahooPacketRead frame.head frame.data frame.data.length).getD frame.head

variable {bytes : Bytes} {count : Nat}

theorem Frame.packet_read (frame : Frame) :
    yahooPacketRead frame.head frame.data frame.data.length = some frame.packet := by
  obtain ⟨hash, read⟩ := readPairs_some (Int.le_refl frame.data.length) 0 frame.head.hash
  rw [Frame.packet, yahooPacketRead, read]
  rfl

inductive Examined where
  | waits
  | skips (count : Nat)
  | packet (frame : Frame) (count : Nat)
deriving DecidableEq, Repr

def field (bytes : Bytes) (pos count : Nat) : Bytes := (bytes.drop pos).take count

def pktlen (bytes : Bytes) : Nat := bigValue (field bytes 8 2)

/-- Up to the next `Y` behind the first byte. -/
def garbage (bytes : Bytes) : Nat := ((bytes.drop 1).takeWhile (· != 89)).length + 1

def examine (bytes : Bytes) : Examined :=
  if bytes.length < yahooPacketHdrlen then .waits
  else if field bytes 0 4 ≠ ascii "YMSG" then .skips (garbage bytes)
  else if bytes.length < yahooPacketHdrlen + pktlen bytes then .waits
  else
    .packet ⟨field bytes 10 2, field bytes 12 4, field bytes 16 4,
      field bytes yahooPacketHdrlen (pktlen bytes)⟩ (yahooPacketHdrlen + pktlen bytes)

theorem examine_moves
    (examined : examine bytes = .skips count ∨ ∃ frame, examine bytes = .packet frame count) :
    0 < count ∧ 0 < bytes.length := by
  unfold examine at examined
  split at examined
  · rcases examined with impossible | ⟨_, impossible⟩ <;> cases impossible
  · rename_i enough
    have some' : 0 < bytes.length := Nat.lt_of_lt_of_le (by decide) (Nat.le_of_not_lt enough)
    refine ⟨?_, some'⟩
    split at examined
    · rcases examined with skipped | ⟨_, impossible⟩
      · cases skipped
        exact Nat.succ_pos _
      · cases impossible
    · split at examined
      · rcases examined with impossible | ⟨_, impossible⟩ <;> cases impossible
      · rcases examined with impossible | ⟨_, taken⟩
        · cases impossible
        · cases taken
          exact Nat.add_pos_left (by decide) _

def scan (bytes : Bytes) : List Frame × Bytes :=
  match _examined : examine bytes with
  | .waits => ([], bytes)
  | .skips count => scan (bytes.drop count)
  | .packet frame count =>
    let later := scan (bytes.drop count)
    (frame :: later.1, later.2)
termination_by bytes.length
decreasing_by
  · have moved := examine_moves (Or.inl _examined)
    rw [List.length_drop]
    omega
  · have moved := examine_moves (Or.inr ⟨_, _examined⟩)
    rw [List.length_drop]
    omega

theorem scan_waits (examined : examine bytes = .waits) : scan bytes = ([], bytes) := by
  rw [scan]
  split
  · rfl
  · rename_i other
    cases examined.symm.trans other
  · rename_i other
    cases examined.symm.trans other

theorem scan_skips (examined : examine bytes = .skips count) :
    scan bytes = scan (bytes.drop count) := by
  rw [scan]
  split
  · rename_i other
    cases examined.symm.trans other
  · rename_i other
    cases examined.symm.trans other
    rfl
  · rename_i other
    cases examined.symm.trans other

theorem scan_packet {frame : Frame} (examined : examine bytes = .packet frame count) :
    scan bytes = (frame :: (scan (bytes.drop count)).1, (scan (bytes.drop count)).2) := by
  rw [scan]
  split
  · rename_i other
    cases examined.symm.trans other
  · rename_i other
    cases examined.symm.trans other
  · rename_i other
    cases examined.symm.trans other
    rfl

theorem field_append {pos : Nat} (inside : pos + count ≤ bytes.length) (more : Bytes) :
    field (bytes ++ more) pos count = field bytes pos count := by
  rw [field, field, drop_append_of_le_length (by omega), take_append_of_le_length]
  rw [List.length_drop]
  omega

theorem examine_skips_iff :
    examine bytes = .skips count ↔ yahooPacketHdrlen ≤ bytes.length ∧
      field bytes 0 4 ≠ ascii "YMSG" ∧ count = garbage bytes := by
  unfold examine
  constructor
  · intro examined
    split at examined
    · cases examined
    · rename_i enough
      split at examined
      · rename_i other
        cases examined
        exact ⟨Nat.le_of_not_lt enough, other, rfl⟩
      · split at examined <;> cases examined
  · rintro ⟨enough, other, rfl⟩
    rw [if_neg (Nat.not_lt_of_le enough), if_pos other]

theorem examine_skips_append (examined : examine bytes = .skips count) (more : Bytes) :
    examine (bytes ++ more) = .skips (garbage (bytes ++ more)) := by
  obtain ⟨enough, other, _⟩ := examine_skips_iff.mp examined
  have header : (0 : Nat) + 4 ≤ bytes.length := Nat.le_trans (by decide) enough
  refine examine_skips_iff.mpr ⟨?_, ?_, rfl⟩
  · rw [length_append]
    exact Nat.le_trans enough (Nat.le_add_right _ _)
  · rw [field_append header]
    exact other

theorem examine_packet_append {frame : Frame} (examined : examine bytes = .packet frame count)
    (more : Bytes) : examine (bytes ++ more) = .packet frame count ∧ count ≤ bytes.length := by
  unfold examine at examined
  split at examined
  · cases examined
  · rename_i enough
    split at examined
    · cases examined
    · rename_i magic
      split at examined
      · cases examined
      · rename_i whole
        cases examined
        simp only [yahooPacketHdrlen] at enough whole
        have length : pktlen (bytes ++ more) = pktlen bytes := by
          rw [pktlen, field_append (by omega), pktlen]
        refine ⟨?_, Nat.le_of_not_lt whole⟩
        have longer : (bytes ++ more).length = bytes.length + more.length := length_append
        unfold examine
        rw [if_neg (by simp only [yahooPacketHdrlen]; omega), field_append (by omega), if_neg magic,
          length, if_neg (by simp only [yahooPacketHdrlen]; omega), field_append (by omega),
          field_append (by omega), field_append (by omega),
          field_append (by simp only [yahooPacketHdrlen]; omega)]

/-- From the first `Y` on. -/
def resync (bytes : Bytes) : Bytes := bytes.dropWhile (· != 89)

theorem resync_append (first second : Bytes) :
    resync (first ++ second) =
      if resync first = [] then resync second else resync first ++ second := by
  induction first with
  | nil => rfl
  | cons byte rest ih =>
    simp only [resync] at ih
    simp only [resync, cons_append, dropWhile_cons]
    split
    · exact ih
    · rw [if_neg (cons_ne_nil _ _), cons_append]

theorem resync_resync (bytes : Bytes) : resync (resync bytes) = resync bytes := by
  induction bytes with
  | nil => rfl
  | cons byte rest ih =>
    rw [resync, resync, dropWhile_cons]
    split
    · exact ih
    · rename_i start
      rw [dropWhile_cons, if_neg start]

theorem resync_length (bytes : Bytes) : (resync bytes).length ≤ bytes.length :=
  (dropWhile_suffix _).length_le

theorem drop_takeWhile (bytes : Bytes) :
    bytes.drop (bytes.takeWhile (· != 89)).length = resync bytes := by
  induction bytes with
  | nil => rfl
  | cons byte rest ih =>
    rw [takeWhile_cons, resync, dropWhile_cons]
    split
    · exact ih
    · rfl

theorem drop_garbage (bytes : Bytes) : bytes.drop (garbage bytes) = resync (bytes.drop 1) := by
  rw [garbage, Nat.add_comm, ← drop_drop, drop_takeWhile]

theorem scan_skipped (examined : examine bytes = .skips count) :
    scan bytes = scan (resync (bytes.drop 1)) := by
  obtain ⟨_, _, rfl⟩ := examine_skips_iff.mp examined
  rw [scan_skips examined, drop_garbage]

theorem scan_short (short : bytes.length < yahooPacketHdrlen) : scan bytes = ([], bytes) :=
  scan_waits (if_pos short)

/-- The same packets, and the same bytes from the first `Y` on. -/
def Alike (first second : List Frame × Bytes) : Prop :=
  first.1 = second.1 ∧ resync first.2 = resync second.2

theorem Alike.trans {first second third : List Frame × Bytes} (one : Alike first second)
    (two : Alike second third) : Alike first third :=
  ⟨one.1.trans two.1, one.2.trans two.2⟩

theorem Alike.symm {first second : List Frame × Bytes} (alike : Alike first second) :
    Alike second first :=
  ⟨alike.1.symm, alike.2.symm⟩

theorem scan_resync (bytes : Bytes) : Alike (scan bytes) (scan (resync bytes)) := by
  by_cases short : bytes.length < yahooPacketHdrlen
  · rw [scan_short short, scan_short (Nat.lt_of_le_of_lt (resync_length bytes) short)]
    exact ⟨rfl, (resync_resync bytes).symm⟩
  · cases bytes with
    | nil => exact ⟨rfl, rfl⟩
    | cons byte rest =>
      by_cases start : byte = 89
      · have same : resync (byte :: rest) = byte :: rest := by
          rw [resync, dropWhile_cons, start]
          rfl
        rw [same]
        exact ⟨rfl, rfl⟩
      · have other : field (byte :: rest) 0 4 ≠ ascii "YMSG" := by
          intro magic
          exact start (List.cons.inj magic).1
        have skipped := scan_skipped (examine_skips_iff.mpr ⟨Nat.le_of_not_lt short, other, rfl⟩)
        have same : resync (byte :: rest) = resync rest := by
          rw [resync, dropWhile_cons, if_pos (bne_iff_ne.mpr start), resync]
        rw [skipped, same]
        exact ⟨rfl, rfl⟩

theorem scan_kept {first second : Bytes} (same : resync first = resync second) (more : Bytes) :
    Alike (scan (first ++ more)) (scan (second ++ more)) := by
  refine (scan_resync (first ++ more)).trans (Alike.trans ?_ (scan_resync (second ++ more)).symm)
  rw [resync_append, resync_append, same]
  exact ⟨rfl, rfl⟩

theorem scan_append (bytes more : Bytes) :
    Alike (scan (bytes ++ more))
      ((scan bytes).1 ++ (scan ((scan bytes).2 ++ more)).1, (scan ((scan bytes).2 ++ more)).2) := by
  induction size : bytes.length using Nat.strongRecOn generalizing bytes with
  | ind length ih =>
    cases examined : examine bytes with
    | waits =>
      rw [scan_waits examined]
      exact ⟨rfl, rfl⟩
    | skips count =>
      have moved := examine_moves (Or.inl examined)
      have split : (bytes ++ more).drop 1 = bytes.drop 1 ++ more :=
        drop_append_of_le_length moved.2
      rw [scan_skipped (examine_skips_append examined more), split, resync_append,
        scan_skipped examined]
      by_cases nothing : resync (bytes.drop 1) = []
      · have empty : scan [] = ([], []) := scan_short (by decide)
        rw [if_pos nothing, nothing, empty]
        exact (scan_resync more).symm
      · rw [if_neg nothing]
        refine ih _ ?_ _ rfl
        have shorter := resync_length (bytes.drop 1)
        rw [List.length_drop] at shorter
        omega
    | packet frame count =>
      have moved := examine_moves (Or.inr ⟨frame, examined⟩)
      obtain ⟨again, inside⟩ := examine_packet_append examined more
      rw [scan_packet again, scan_packet examined, drop_append_of_le_length inside]
      have later := ih (bytes.drop count).length (by rw [List.length_drop]; omega)
        (bytes.drop count) rfl
      exact ⟨congrArg (frame :: ·) later.1, later.2⟩

end Purple.Yahoo
