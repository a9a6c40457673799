/-
The packets that a Yahoo server sends, however they are cut into reads.

A round of the loop does to the queue what `examine` says of its bytes, so that a read
leaves what `scan` keeps of the bytes held before and the bytes that were read.
-/

import Mathlib.Data.List.TakeWhile
import Purple.Yahoo.PendingStream

namespace Purple.Yahoo

open List Option CString Endian Memory

structure Holds (yd : YahooData) (held : Bytes) : Prop where
  front : held.map some <+: yd.rxqueue
  sized : yd.rxlen = held.length

variable {yd : YahooData} {held bytes : Bytes}

theorem queued_held (holds : Holds yd held) {pos count : Nat} (inside : pos + count ≤ held.length) :
    queued yd pos count = some (field held pos count) := by
  obtain ⟨rest, queue⟩ := holds.front
  have cells : (held.map some).length = held.length := length_map _
  have room : pos + count ≤ yd.rxqueue.length := by
    rw [← queue, length_append, cells]
    omega
  have loaded : yd.rxqueue.load pos count = some ((field held pos count).map some) := by
    rw [Block.load_some _ room, ← queue, drop_append_of_le_length (by omega),
      take_append_of_le_length (by rw [List.length_drop]; omega), field, map_take,
      map_drop]
  rw [queued, if_pos (by rw [holds.sized]; exact inside), loaded, bind_some, mapM_stored]

theorem tail_loaded (holds : Holds yd held) {start : Nat} (inside : start ≤ held.length) :
    yd.rxqueue.load start (yd.rxlen - start) = some ((held.drop start).map some) := by
  have split : (held.take start).map some ++ (held.drop start).map some <+: yd.rxqueue := by
    rw [← map_append, take_append_drop]
    exact holds.front
  have loaded := Block.load_front _ _ split
  rw [length_map, length_map, length_take, Nat.min_eq_left inside,
    List.length_drop] at loaded
  rw [holds.sized, loaded]

theorem findStart_garbage {start : Nat} (found : findStart held = some start) :
    start = garbage held := by
  unfold findStart at found
  split at found
  · cases found
    rfl
  · cases found

theorem findStart_none (absent : findStart held = none) : held.drop (garbage held) = [] := by
  unfold findStart at absent
  split at absent
  · cases absent
  · rename_i none'
    rw [drop_garbage, resync, dropWhile_eq_nil_iff]
    exact fun byte member => bne_iff_ne.mpr fun start => none' (start ▸ member)

theorem garbage_inside (some' : 0 < held.length) : garbage held ≤ held.length := by
  have shorter := ( takeWhile_prefix (l := held.drop 1) (· != 89)).length_le
  rw [List.length_drop] at shorter
  rw [garbage]
  omega

theorem resynchronise_drops (holds : Holds yd held) (some' : 0 < held.length) :
    ∃ again next, resynchronise yd = some (again, next) ∧ Holds next (held.drop (garbage held)) ∧
      (again = false → held.drop (garbage held) = []) ∧ next.processed = yd.processed := by
  have whole : queued yd 0 yd.rxlen = some held := by
    rw [queued_held holds (by rw [holds.sized]; omega), field, holds.sized, drop_zero,
      take_length]
  rw [resynchronise, whole, bind_some]
  cases found : findStart held with
  | none =>
    have nothing := findStart_none found
    refine ⟨false, { yd with rxqueue := [], rxlen := 0 }, rfl, ?_, fun _ => nothing, rfl⟩
    rw [nothing]
    exact ⟨ nil_prefix, rfl⟩
  | some start =>
    have inside := garbage_inside some'
    rw [← findStart_garbage found] at inside ⊢
    have room : 0 + ((held.drop start).map some).length ≤ yd.rxqueue.length := by
      have cells := holds.front.length_le
      rw [length_map] at cells
      rw [length_map, List.length_drop]
      omega
    obtain ⟨queue, stored, _, front⟩ := Block.store_after ( nil_prefix (l := yd.rxqueue)) room
    change yd.rxqueue.store 0 _ = _ at stored
    dsimp only
    rw [tail_loaded holds inside, bind_some, stored]
    refine ⟨true, { yd with rxqueue := queue, rxlen := yd.rxlen - start }, rfl, ⟨front, ?_⟩,
      fun impossible => absurd impossible.symm Bool.false_ne_true, rfl⟩
    change yd.rxlen - start = _
    rw [List.length_drop, holds.sized]

theorem takePacket_whole (holds : Holds yd held)
    (whole : yahooPacketHdrlen + pktlen held ≤ held.length) :
    ∃ next, takePacket yd (pktlen held) = some next ∧
      Holds next (held.drop (yahooPacketHdrlen + pktlen held)) ∧
      next.processed = yd.processed ++ [Frame.packet ⟨field held 10 2, field held 12 4,
        field held 16 4, field held yahooPacketHdrlen (pktlen held)⟩] := by
  have header : yahooPacketHdrlen = 20 := rfl
  have data : (field held yahooPacketHdrlen (pktlen held)).length = pktlen held := by
    rw [field, length_take, List.length_drop]
    omega
  have read := Frame.packet_read ⟨field held 10 2, field held 12 4, field held 16 4,
    field held yahooPacketHdrlen (pktlen held)⟩
  change yahooPacketRead _ (field held yahooPacketHdrlen (pktlen held))
    (field held yahooPacketHdrlen (pktlen held)).length = _ at read
  rw [data, Frame.head] at read
  rw [takePacket, queued_held holds (by omega), queued_held holds (by omega),
    queued_held holds (by omega), queued_held holds (by omega)]
  simp only [bind_eq_bind, bind_some]
  rw [read, bind_some]
  have left : yd.rxlen - (yahooPacketHdrlen + pktlen held) =
      (held.drop (yahooPacketHdrlen + pktlen held)).length := by
    rw [List.length_drop, holds.sized]
  by_cases rest : yd.rxlen - (yahooPacketHdrlen + pktlen held) ≠ 0
  · rw [if_pos rest, tail_loaded holds whole]
    exact ⟨_, rfl, ⟨prefix_refl _, left⟩, rfl⟩
  · rw [if_neg rest]
    rw [not_not] at rest
    refine ⟨_, rfl, ⟨?_, left⟩, rfl⟩
    rw [left] at rest
    rw [length_eq_zero_iff.mp rest]
    exact nil_prefix

def Examined.frames : Examined → List Frame
  | .packet frame _ => [frame]
  | _ => []

def Examined.count : Examined → Nat
  | .waits => 0
  | .skips count => count
  | .packet _ count => count

theorem pendingRound_examines (holds : Holds yd held) :
    ∃ again next, pendingRound yd = some (again, next) ∧
      Holds next (held.drop (examine held).count) ∧
      next.processed = yd.processed ++ (examine held).frames.map Frame.packet ∧
      (again = true → examine held ≠ .waits) ∧
      (again = false → examine held = .waits ∨ held.drop (examine held).count = []) := by
  have header : yahooPacketHdrlen = 20 := rfl
  rw [pendingRound, examine, holds.sized]
  by_cases enough : held.length < yahooPacketHdrlen
  · rw [if_pos enough, if_pos enough]
    exact ⟨false, yd, rfl, holds, (append_nil _).symm, (nomatch ·), fun _ => Or.inl rfl⟩
  · rw [if_neg enough, if_neg enough, queued_held holds (by omega), bind_some]
    by_cases magic : field held 0 4 ≠ ascii "YMSG"
    · rw [if_pos magic, if_pos magic]
      obtain ⟨again, next, done, left, nothing, kept⟩ := resynchronise_drops holds (by omega)
      refine ⟨again, next, done, left, ?_, fun _ => (nomatch ·), fun last => Or.inr (nothing last)⟩
      rw [kept]
      exact (append_nil _).symm
    · rw [if_neg magic, if_neg magic, queued_held holds (by omega), bind_some]
      change ∃ again next, (if held.length < yahooPacketHdrlen + pktlen held then _ else
        (takePacket yd (pktlen held)).map _) = _ ∧ _
      by_cases whole : held.length < yahooPacketHdrlen + pktlen held
      · rw [if_pos whole, if_pos whole]
        exact ⟨false, yd, rfl, holds, (append_nil _).symm, (nomatch ·), fun _ => Or.inl rfl⟩
      · rw [if_neg whole, if_neg whole]
        obtain ⟨next, taken, left, more⟩ := takePacket_whole holds (Nat.le_of_not_lt whole)
        rw [taken]
        exact ⟨true, next, rfl, left, more, fun _ => (nomatch ·), (nomatch ·)⟩

theorem scan_examined (moves : examine bytes ≠ .waits) :
    scan bytes = ((examine bytes).frames ++ (scan (bytes.drop (examine bytes).count)).1,
      (scan (bytes.drop (examine bytes).count)).2) := by
  cases examined : examine bytes with
  | waits => exact absurd examined moves
  | skips count => exact scan_skips examined
  | packet frame count => exact scan_packet examined

theorem pendingRounds_scan {rounds : Nat} (holds : Holds yd held) (enough : held.length < rounds) :
    ∃ next, pendingRounds rounds yd = some next ∧ Holds next (scan held).2 ∧
      next.processed = yd.processed ++ (scan held).1.map Frame.packet := by
  induction rounds generalizing yd held with
  | zero => exact absurd enough (Nat.not_lt_zero _)
  | succ rounds ih =>
    obtain ⟨again, next, done, left, more, moves, last⟩ := pendingRound_examines holds
    rw [pendingRounds, done, bind_some]
    cases again with
    | false =>
      refine ⟨next, rfl, ?_⟩
      by_cases waits : examine held = .waits
      · rw [scan_waits waits]
        rw [waits] at left more
        exact ⟨left, more⟩
      · have nothing := (last rfl).resolve_left waits
        have empty : scan [] = ([], []) := scan_short (by decide)
        rw [scan_examined waits, nothing, empty, append_nil]
        rw [nothing] at left
        exact ⟨left, more⟩
    | true =>
      have waits := moves rfl
      have shorter : (held.drop (examine held).count).length < rounds := by
        have moved : 0 < (examine held).count ∧ 0 < held.length := by
          cases examined : examine held with
          | waits => exact absurd examined waits
          | skips count => exact examine_moves (Or.inl examined)
          | packet frame count => exact examine_moves (Or.inr ⟨frame, examined⟩)
        rw [List.length_drop]
        omega
      obtain ⟨last, finished, rest, all⟩ := ih left shorter
      rw [if_pos rfl, scan_examined waits]
      refine ⟨last, finished, rest, ?_⟩
      rw [all, more, map_append, append_assoc]

theorem yahooPending_data (holds : Holds yd held) (positive : bytes ≠ [])
    (short : bytes.length ≤ 1024) :
    ∃ next, yahooPending yd (.data bytes positive short) = some next ∧
      Holds next (scan (held ++ bytes)).2 ∧
      next.processed = yd.processed ++ (scan (held ++ bytes)).1.map Frame.packet := by
  have kept : held.map some <+: yd.rxqueue.realloc (bytes.length + yd.rxlen) :=
    Block.prefix_realloc holds.front (by rw [length_map, holds.sized]; omega)
  have room : (held.map some).length + (bytes.map some).length ≤
      (yd.rxqueue.realloc (bytes.length + yd.rxlen)).length := by
    rw [Block.realloc_length, length_map, length_map, holds.sized]
    omega
  obtain ⟨queue, stored, _, front⟩ := Block.store_after kept room
  rw [length_map, ← holds.sized] at stored
  rw [← map_append] at front
  rw [yahooPending, stored, bind_some]
  dsimp only
  apply pendingRounds_scan
  · refine ⟨front, ?_⟩
    rw [length_append, ← holds.sized]
  · rw [length_append, ← holds.sized]
    exact Nat.lt_succ_self _

def yahooPendings : List Reading → YahooData → Option YahooData
  | [], yd => some yd
  | reading :: later, yd => (yahooPending yd reading).bind (yahooPendings later)

def received : List Reading → Option Bytes
  | [] => some []
  | .data bytes _ _ :: later => (received later).map (bytes ++ ·)
  | .again :: later => received later
  | .failed :: _ => none
  | .closed :: _ => none

/-- The packets of the bytes were processed, and of what `scan` keeps everything from the
first `Y` on is held. -/
structure Scanned (bytes : Bytes) (yd : YahooData) (held : Bytes) : Prop where
  holds : Holds yd held
  processed : yd.processed = (scan bytes).1.map Frame.packet
  kept : resync held = resync (scan bytes).2

theorem scanned_data {more : Bytes} (scanned : Scanned bytes yd held) (positive : more ≠ [])
    (short : more.length ≤ 1024) :
    ∃ next held, yahooPending yd (.data more positive short) = some next ∧
      Scanned (bytes ++ more) next held := by
  obtain ⟨next, read, holds, processed⟩ := yahooPending_data scanned.holds positive short
  have apart := scan_append bytes more
  have here := scan_kept scanned.kept more
  refine ⟨next, _, read, holds, ?_, ?_⟩
  · rw [processed, scanned.processed, here.1, ← map_append, apart.1]
  · rw [here.2, apart.2]

theorem yahooPendings_scanned {readings : List Reading} {stream : Bytes}
    (scanned : Scanned bytes yd held) (read : received readings = some stream) :
    ∃ next held, yahooPendings readings yd = some next ∧ Scanned (bytes ++ stream) next held := by
  induction readings generalizing bytes stream yd held with
  | nil =>
    cases read
    rw [append_nil]
    exact ⟨yd, held, rfl, scanned⟩
  | cons reading later ih =>
    cases reading with
    | data more positive short =>
      rw [received, map_eq_some_iff] at read
      obtain ⟨rest, behind, rfl⟩ := read
      obtain ⟨next, nextHeld, one, nextScanned⟩ := scanned_data scanned positive short
      rw [yahooPendings, one, ← append_assoc]
      exact ih nextScanned behind
    | again => exact ih scanned read
    | failed => cases read
    | closed => cases read

theorem scanned_start : Scanned [] YahooData.start [] := by
  have empty : scan [] = ([], []) := scan_short (by decide)
  refine ⟨⟨ nil_prefix, rfl⟩, ?_, ?_⟩
  · rw [empty]
    rfl
  · rw [empty]

/-- The same packets in the same order, a length that counts what is held, and the same
bytes held from the first `Y` on. -/
theorem yahooPending_reads_alike {stream : Bytes} {first second : List Reading}
    (one : received first = some stream) (other : received second = some stream) :
    ∃ left right leftHeld rightHeld,
      yahooPendings first YahooData.start = some left ∧
      yahooPendings second YahooData.start = some right ∧
      left.processed = right.processed ∧
      Holds left leftHeld ∧ Holds right rightHeld ∧ resync leftHeld = resync rightHeld := by
  obtain ⟨left, leftHeld, run, leftScanned⟩ := yahooPendings_scanned scanned_start one
  obtain ⟨right, rightHeld, run', rightScanned⟩ := yahooPendings_scanned scanned_start other
  refine ⟨left, right, leftHeld, rightHeld, run, run', ?_, leftScanned.holds, rightScanned.holds, ?_⟩
  · rw [leftScanned.processed, rightScanned.processed]
  · rw [leftScanned.kept, rightScanned.kept]

/-- Twenty-five bytes that start no packet, and the start of one. -/
def noise : Bytes := List.replicate 25 120 ++ ascii "YMSG."

def noiseApart : List Reading :=
  [.data (noise.take 20) (by decide) (by decide), .data (noise.drop 20) (by decide) (by decide)]

def noiseWhole : List Reading := [.data noise (by decide) (by decide)]

theorem yahooPending_reads_noise :
    ∃ left right, yahooPendings noiseApart YahooData.start = some left ∧
      yahooPendings noiseWhole YahooData.start = some right ∧ left.processed = right.processed := by
  obtain ⟨left, right, _, _, one, other, same, _⟩ :=
    @yahooPending_reads_alike noise noiseApart noiseWhole (by decide) (by decide)
  exact ⟨left, right, one, other, same⟩

/-- Garbage in front of a packet is dropped at once only with a header's worth of bytes. -/
theorem noise_held_apart :
    ¬∀ (stream : Bytes) (first second : List Reading), received first = some stream →
      received second = some stream → ∀ left right,
        yahooPendings first YahooData.start = some left →
        yahooPendings second YahooData.start = some right →
        left.rxqueue.take left.rxlen = right.rxqueue.take right.rxlen := by
  intro alike
  have apart : (yahooPendings noiseApart YahooData.start).map
      (fun yd => yd.rxqueue.take yd.rxlen) = some (((ascii "xxxxxYMSG.")).map some) := by
    decide +kernel
  have whole : (yahooPendings noiseWhole YahooData.start).map
      (fun yd => yd.rxqueue.take yd.rxlen) = some ((ascii "YMSG.").map some) := by
    decide +kernel
  rw [map_eq_some_iff] at apart whole
  obtain ⟨left, one, leftHeld⟩ := apart
  obtain ⟨right, other, rightHeld⟩ := whole
  have same := alike noise noiseApart noiseWhole (by decide) (by decide) left right one other
  rw [leftHeld, rightHeld] at same
  exact absurd same (by decide)

end Purple.Yahoo
