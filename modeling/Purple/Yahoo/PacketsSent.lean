/-
From one end of a Yahoo connection to the other: the bytes that `yahoo_packet_send` writes,
and the packets that `yahoo_pending` takes out of them.
-/

import Purple.Yahoo.PacketRoundTrip
import Purple.Yahoo.PendingReads

namespace Purple.Yahoo

open List Option CString Endian Memory

/-- What is written for a packet. -/
def packetBytes (wm jp : Bool) (pkt : YahooPacket) : Option Bytes :=
  (yahooPacketBuild pkt 0 wm jp).bind fun built => (built.2.1.take built.2.2).mapM id

def streamBytes (wm jp : Bool) : List YahooPacket → Option Bytes
  | [] => some []
  | pkt :: pkts => (packetBytes wm jp pkt).bind fun front =>
    (streamBytes wm jp pkts).map (front ++ ·)

/-- The pairs are written in the opposite order. -/
def YahooPacket.written (pkt : YahooPacket) : YahooPacket := { pkt with hash := pkt.hash.reverse }

structure Sendable (pkt : YahooPacket) : Prop where
  plain : ∀ pair ∈ pkt.hash, Plain pair
  fits : yahooPacketLength pkt ≤ 65535

variable {pkt : YahooPacket}

def sentHeader (pkt : YahooPacket) (wm jp : Bool) : Bytes :=
  header pkt (yahooPacketLength pkt) 0 wm jp

theorem packetBytes_eq (sendable : Sendable pkt) (wm jp : Bool) :
    packetBytes wm jp pkt = some (sentHeader pkt wm jp ++ encode pkt.hash.reverse) := by
  have length := yahooPacketLength_eq sendable.plain
  rw [packetBytes, yahooPacketBuild_eq sendable.plain, bind_some]
  dsimp only
  rw [map_append, take_left', mapM_stored]
  · rfl
  · rw [length_map, length_append, header_length, length]

def sentFrame (pkt : YahooPacket) : Frame :=
  { service := big 2 pkt.service.toNat
    status := big 4 pkt.status.toUInt32.toNat
    id := big 4 pkt.id.toNat
    data := encode pkt.hash.reverse }

theorem examine_sent (sendable : Sendable pkt) (wm jp : Bool) (rest : Bytes) :
    examine (sentHeader pkt wm jp ++ encode pkt.hash.reverse ++ rest) =
      .packet (sentFrame pkt) (yahooPacketHdrlen + (encode pkt.hash.reverse).length) := by
  have length := yahooPacketLength_eq sendable.plain
  have fits := sendable.fits
  have head : (sentHeader pkt wm jp).length = yahooPacketHdrlen := header_length ..
  rw [append_assoc]
  generalize behind : encode pkt.hash.reverse ++ rest = bytes
  have count : pktlen (sentHeader pkt wm jp ++ bytes) = (encode pkt.hash.reverse).length := by
    have value := header_pktlen pkt wm jp
      (show 0 ≤ ((yahooPacketLength pkt : Nat) : Int) + 0 by omega) (by omega)
    change bigValue (((header pkt (yahooPacketLength pkt) 0 wm jp).drop 8).take 2) = _
    omega
  have magic : field (sentHeader pkt wm jp ++ bytes) 0 4 = ascii "YMSG" := rfl
  have data : field (sentHeader pkt wm jp ++ bytes) yahooPacketHdrlen
      (encode pkt.hash.reverse).length = encode pkt.hash.reverse := by
    rw [field, drop_left' head, ← behind, take_left' rfl]
  have total := congrArg List.length behind
  rw [length_append] at total
  rw [examine, count, data, magic, length_append, head, if_neg (by omega),
    if_neg (not_not.mpr rfl), if_neg (by omega)]
  rfl

theorem sentFrame_packet (sendable : Sendable pkt) : (sentFrame pkt).packet = pkt.written := by
  have head : (sentFrame pkt).head = { pkt with hash := [] } := by
    have status := pkt.status.toUInt32.toNat_lt
    rw [Frame.head, sentFrame, bigValue_big 2 (show _ < 256 ^ 2 from pkt.service.toNat_lt),
      bigValue_big 4 (show _ < 256 ^ 4 from status),
      bigValue_big 4 (show _ < 256 ^ 4 from pkt.id.toNat_lt), UInt16.ofNat_toNat,
      UInt32.ofNat_toNat, UInt32.ofNat_toNat]
    rfl
  have read := @yahooPacketRead_encode pkt.hash.reverse
    (fun pair member => sendable.plain pair (mem_reverse.mp member)) { pkt with hash := [] } rfl []
  rw [append_nil] at read
  rw [Frame.packet, head]
  change (yahooPacketRead _ (encode pkt.hash.reverse) (encode pkt.hash.reverse).length).getD _ = _
  rw [read]
  rfl

theorem stream_scanned (wm jp : Bool) {pkts : List YahooPacket}
    (sendable : ∀ pkt ∈ pkts, Sendable pkt) :
    ∃ stream, streamBytes wm jp pkts = some stream ∧ scan stream = (pkts.map sentFrame, []) := by
  induction pkts with
  | nil => exact ⟨[], rfl, scan_short (by decide)⟩
  | cons pkt pkts ih =>
    obtain ⟨rest, written, scanned⟩ := ih fun other member => sendable other (mem_cons_of_mem _ member)
    have here := sendable pkt mem_cons_self
    rw [streamBytes, packetBytes_eq here, bind_some, written]
    refine ⟨_, rfl, ?_⟩
    rw [scan_packet (examine_sent here wm jp rest), drop_left', scanned, map_cons]
    rw [length_append, sentHeader, header_length]

/-- Packets arrive as they were sent, and in order, however the stream is cut into reads. -/
theorem packets_delivered (wm jp : Bool) {pkts : List YahooPacket}
    (sendable : ∀ pkt ∈ pkts, Sendable pkt) :
    ∃ stream, streamBytes wm jp pkts = some stream ∧ ∀ readings, received readings = some stream →
      ∃ yd, yahooPendings readings YahooData.start = some yd ∧
        yd.processed = pkts.map YahooPacket.written := by
  obtain ⟨stream, written, scanned⟩ := stream_scanned wm jp sendable
  refine ⟨stream, written, fun readings read => ?_⟩
  obtain ⟨yd, held, ran, done⟩ := yahooPendings_scanned scanned_start read
  refine ⟨yd, ran, ?_⟩
  rw [done.processed, nil_append, scanned, List.map_map]
  exact map_congr_left fun pkt member => sentFrame_packet (sendable pkt member)

theorem packets_delivered_sample :
    ∃ stream, streamBytes false false [sample, sample] = some stream ∧
      ∀ readings, received readings = some stream →
        ∃ yd, yahooPendings readings YahooData.start = some yd ∧
          yd.processed = [sample.written, sample.written] :=
  packets_delivered false false fun pkt member => by
    obtain rfl : pkt = sample := by simpa using member
    exact ⟨sample_plain, sample_fits⟩

end Purple.Yahoo
