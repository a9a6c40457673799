/-
What the writer of YMSG packets writes, and the round trip.

The buffer is filled from the front: what is written, then what is not yet, then
the terminator that the allocation leaves.
-/

import Purple.Yahoo.PacketReading

namespace Purple.Yahoo

open List Option CString Decimal Endian Memory

variable {pairs : List YahooPair} {pkt : YahooPacket}

theorem keyLength_decimal (value : Nat) : keyLength value = (decimal value).length := by
  induction value using Nat.strongRecOn with
  | ind value ih =>
    have divided : (value : Int).tdiv 10 = ((value / 10 : Nat) : Int) := rfl
    rw [keyLength, divided]
    by_cases low : value < 10
    · rw [if_pos (by omega), decimal_low low]
      rfl
    · rw [if_neg (by omega), ih _ (by omega), decimal_high low, length_append]
      rfl

theorem Plain.keyLength {pair : YahooPair} (plain : Plain pair) :
    keyLength pair.key.toInt = (printInt pair.key.toInt).length := by
  rw [plain.key, ← keyLength_decimal, Int.toNat_of_nonneg plain.nonneg]

theorem length_encodePair {pair : YahooPair} (plain : Plain pair) :
    (encodePair pair).length =
      Yahoo.keyLength pair.key.toInt + 2 + (cString pair.value).length + 2 := by
  rw [encodePair, plain.keyLength, length_append, length_append, length_append]
  rfl

theorem foldl_lengths (plain : ∀ pair ∈ pairs, Plain pair) (start : Nat) :
    pairs.foldl (fun len pair =>
      len + keyLength pair.key.toInt + 2 + (cString pair.value).length + 2) start =
        start + (encode pairs).length := by
  induction pairs generalizing start with
  | nil => rfl
  | cons pair rest ih =>
    rw [foldl_cons, ih fun other member => plain other (mem_cons_of_mem pair member)]
    change _ = start + (encodePair pair ++ encode rest).length
    rw [length_append, length_encodePair (plain pair mem_cons_self)]
    omega

theorem encode_reverse_length (pairs : List YahooPair) :
    (encode pairs.reverse).length = (encode pairs).length := by
  rw [encode, encode, length_flatMap, length_flatMap, map_reverse, sum_reverse]

theorem yahooPacketLength_eq (plain : ∀ pair ∈ pkt.hash, Plain pair) :
    yahooPacketLength pkt = (encode pkt.hash.reverse).length := by
  rw [yahooPacketLength, foldl_lengths plain, Nat.zero_add, encode_reverse_length]

theorem putString_front (front text : Bytes) {old : Block UInt8} (back : Block UInt8)
    (sized : old.length = text.length + 2) :
    putString (front.map some ++ old ++ back) front.length text =
      some ((front ++ text ++ separator).map some ++ back, front.length + text.length + 2) := by
  obtain ⟨begun, last, rfl⟩ : ∃ begun last, old = begun ++ [last] :=
    ⟨old.dropLast, old.getLast (ne_nil_of_length_pos (by omega)),
      (dropLast_append_getLast _).symm⟩
  rw [length_append, length_singleton] at sized
  have copied := Block.store_middle (front.map some) (last :: back)
    (show begun.length = ((text ++ [0]).map some).length by
      rw [length_map, length_append, length_singleton]
      omega)
  have first := Block.store_cell ((front ++ text).map some) (last :: back) (some 0) (some 0xc0)
  have second := Block.store_cell ((front ++ text ++ [0xc0]).map some) back last (some 0x80)
  rw [length_map] at copied first second
  rw [length_append] at first
  rw [length_append, length_append, length_singleton] at second
  have start : front.map some ++ (begun ++ [last]) ++ back =
      front.map some ++ begun ++ last :: back := by
    simp only [append_assoc, cons_append, nil_append]
  have middle : front.map some ++ (text ++ [0]).map some ++ last :: back =
      (front ++ text).map some ++ some 0 :: last :: back := by
    simp only [map_append, append_assoc, map_cons, map_nil, cons_append,
      nil_append]
  have stepped : (front ++ text).map some ++ some 0xc0 :: last :: back =
      (front ++ text ++ [0xc0]).map some ++ last :: back := by
    simp only [map_append, append_assoc, map_cons, map_nil, cons_append,
      nil_append]
  rw [putString, start, copied, bind_some, middle, first, bind_some, stepped, second]
  simp only [map_some, separator, map_append, append_assoc, map_cons,
    map_nil, cons_append, nil_append]

theorem writePairs_front (front : Bytes) {old : Block UInt8} (back : Block UInt8)
    (sized : old.length = (encode pairs).length) :
    writePairs (front.map some ++ old ++ back) front.length pairs =
      some ((front ++ encode pairs).map some ++ back) := by
  induction pairs generalizing front old with
  | nil =>
    obtain rfl : old = [] := eq_nil_of_length_eq_zero sized
    change some _ = some ((front ++ []).map some ++ back)
    rw [append_nil, append_nil]
  | cons pair rest ih =>
    let key := printInt pair.key.toInt
    let value := cString pair.value
    have parts : old.length = (key.length + 2) + ((value.length + 2) + (encode rest).length) := by
      rw [sized]
      change (encodePair pair ++ encode rest).length = _
      rw [encodePair, length_append, length_append, length_append,
        length_append]
      change key.length + 2 + value.length + 2 + _ = _
      omega
    obtain ⟨keyOld, others, rfl, keySized⟩ : ∃ keyOld others, old = keyOld ++ others ∧
        keyOld.length = key.length + 2 :=
      ⟨old.take (key.length + 2), old.drop (key.length + 2), (take_append_drop _ _).symm, by
        rw [length_take]
        omega⟩
    obtain ⟨valueOld, restOld, rfl, valueSized⟩ : ∃ valueOld restOld, others = valueOld ++ restOld ∧
        valueOld.length = value.length + 2 :=
      ⟨others.take (value.length + 2), others.drop (value.length + 2),
        (take_append_drop _ _).symm, by
        rw [length_append] at parts
        rw [length_take]
        omega⟩
    rw [length_append, length_append] at parts
    have keyPut := putString_front front key (valueOld ++ restOld ++ back) keySized
    have valuePut := putString_front (front ++ key ++ separator) value (restOld ++ back) valueSized
    have further := ih (front ++ key ++ separator ++ value ++ separator)
      (show restOld.length = (encode rest).length by omega)
    have keyLength : (front ++ key ++ separator).length = front.length + key.length + 2 := by
      rw [length_append, length_append]
      rfl
    have valueLength : (front ++ key ++ separator ++ value ++ separator).length =
        front.length + key.length + 2 + value.length + 2 := by
      rw [length_append, length_append, keyLength]
      rfl
    rw [keyLength] at valuePut
    rw [valueLength] at further
    have start : front.map some ++ (keyOld ++ (valueOld ++ restOld)) ++ back =
        front.map some ++ keyOld ++ (valueOld ++ restOld ++ back) := by
      simp only [append_assoc]
    rw [writePairs, start]
    change (putString _ _ key).bind _ = _
    rw [keyPut, bind_some]
    change (putString _ _ value).bind _ = _
    rw [append_assoc valueOld, ← append_assoc _ valueOld, valuePut, bind_some]
    change writePairs _ _ rest = _
    rw [← append_assoc _ restOld, further]
    change _ = some ((front ++ (encodePair pair ++ encode rest)).map some ++ back)
    rw [encodePair]
    simp only [append_assoc, key, value]

theorem header_length (pkt : YahooPacket) (pktlen : Nat) (pad : Int) (wm jp : Bool) :
    (header pkt pktlen pad wm jp).length = yahooPacketHdrlen := by
  simp only [header, length_append, big_length]
  rfl

theorem yahooPacketBuild_eq (plain : ∀ pair ∈ pkt.hash, Plain pair) (pad : Int) (wm jp : Bool) :
    yahooPacketBuild pkt pad wm jp =
      some ({ pkt with hash := pkt.hash.reverse },
        (header pkt (yahooPacketLength pkt) pad wm jp ++ encode pkt.hash.reverse ++ [0]).map some,
        yahooPacketHdrlen + yahooPacketLength pkt) := by
  let head := header pkt (yahooPacketLength pkt) pad wm jp
  have sized : head.length = yahooPacketHdrlen := header_length ..
  have allocated : List.replicate (yahooPacketHdrlen + yahooPacketLength pkt + 1) (some (0 : UInt8)) =
      [] ++ List.replicate yahooPacketHdrlen (some 0) ++
        (List.replicate (yahooPacketLength pkt) (some 0) ++ [some 0]) := by
    rw [nil_append, ← append_assoc, replicate_append_replicate]
    exact replicate_succ'
  have stored := Block.store_middle ([] : Block UInt8)
    (List.replicate (yahooPacketLength pkt) (some 0) ++ [some 0])
    (show (List.replicate yahooPacketHdrlen (some (0 : UInt8))).length = (head.map some).length by
      rw [length_replicate, length_map, sized])
  have written := writePairs_front head [some 0]
    (show (List.replicate (yahooPacketLength pkt) (some (0 : UInt8))).length =
      (encode pkt.hash.reverse).length by
        rw [length_replicate, yahooPacketLength_eq plain])
  rw [sized] at written
  rw [yahooPacketBuild]
  dsimp only
  rw [allocated]
  change (Block.store _ ([] : Block UInt8).length (head.map some)).bind _ = _
  rw [stored, bind_some, yahooPacketWrite, nil_append, ← append_assoc, written,
    map_append, map_append, map_append]
  rfl

theorem yahooPacketRead_some (pkt : YahooPacket) {data : Bytes} {len : Int}
    (held : len ≤ data.length) : ∃ read, yahooPacketRead pkt data len = some read := by
  obtain ⟨hash, read⟩ := readPairs_some held 0 pkt.hash
  exact ⟨_, by rw [yahooPacketRead, read]; rfl⟩

theorem yahooPacketRead_encode (plain : ∀ pair ∈ pairs, Plain pair) {received : YahooPacket}
    (fresh : received.hash = []) (extra : Bytes) :
    yahooPacketRead received (encode pairs ++ extra) (encode pairs).length =
      some { received with hash := pairs } := by
  have read := @readPairs_front (encode pairs).length pairs [] extra received.hash plain rfl
  rw [yahooPacketRead]
  change ((readPairs ([] ++ encode pairs ++ extra) _ ([] : Bytes).length _).map _) = _
  rw [read, fresh, append_nil, map_some, reverse_reverse]

theorem header_pktlen (pkt : YahooPacket) {pktlen : Nat} {pad : Int} (wm jp : Bool)
    (low : 0 ≤ pktlen + pad) (high : pktlen + pad ≤ 65535) :
    (bigValue (((header pkt pktlen pad wm jp).drop 8).take 2) : Int) = pktlen + pad := by
  have field : ((header pkt pktlen pad wm jp).drop 8).take 2 =
      big 2 ((pktlen + pad) % 2 ^ 16).toNat := rfl
  rw [field, bigValue_big 2 (by omega)]
  omega

/-- The packet fills its buffer, the header says how far, and a fresh packet reads it back. -/
structure RoundTrips (pkt : YahooPacket) (pad : Int) (wm jp : Bool) (written : YahooPacket)
    (head bytes : Bytes) : Prop where
  built : yahooPacketBuild pkt pad wm jp =
    some (written, (head ++ bytes ++ [0]).map some, yahooPacketHdrlen + bytes.length)
  order : written.hash = pkt.hash.reverse
  hdrlen : head.length = yahooPacketHdrlen
  length : bytes.length = yahooPacketLength pkt
  pktlen : pad = 0 → bigValue ((head.drop 8).take 2) = bytes.length
  read : ∀ received : YahooPacket, received.hash = [] →
    yahooPacketRead received bytes bytes.length = some { received with hash := written.hash }

theorem packets_round_trip :
    (∀ (pkt : YahooPacket) (pad : Int) (wm jp : Bool), (∀ pair ∈ pkt.hash, Plain pair) →
      yahooPacketLength pkt ≤ 65535 →
        ∃ written head bytes, RoundTrips pkt pad wm jp written head bytes) ∧
    ∀ (pkt : YahooPacket) (data : Bytes) (len : Int), len ≤ data.length →
      ∃ read, yahooPacketRead pkt data len = some read := by
  refine ⟨?_, fun pkt _ _ held => yahooPacketRead_some pkt held⟩
  intro pkt pad wm jp plain fits
  have length := yahooPacketLength_eq plain
  refine ⟨{ pkt with hash := pkt.hash.reverse }, header pkt (yahooPacketLength pkt) pad wm jp,
    encode pkt.hash.reverse, ?_, rfl, header_length .., length.symm, ?_, ?_⟩
  · rw [yahooPacketBuild_eq plain pad wm jp, ← length]
  · rintro rfl
    have field := header_pktlen pkt wm jp
      (show 0 ≤ ((yahooPacketLength pkt : Nat) : Int) + 0 by omega) (by omega)
    omega
  · intro received fresh
    have read := @yahooPacketRead_encode pkt.hash.reverse
      (fun pair member => plain pair (mem_reverse.mp member)) received fresh []
    rw [append_nil] at read
    exact read

/-- A message with an empty field and a byte that starts a separator. -/
def sample : YahooPacket :=
  ⟨6, 0, 5, [⟨9, ascii "abc"⟩, ⟨2147483647, []⟩, ⟨14, [0xc0]⟩]⟩

theorem sample_plain : ∀ pair ∈ sample.hash, Plain pair := by
  intro pair member
  simp only [sample, mem_cons, not_mem_nil, or_false] at member
  obtain rfl | rfl | rfl := member
  · exact ⟨by decide, by decide, by decide⟩
  · exact ⟨by decide, by decide, by decide⟩
  · exact ⟨by decide, by decide, by decide⟩

theorem sample_fits : yahooPacketLength sample ≤ 65535 := by
  have short {pair : YahooPair} (plain : Plain pair) : keyLength pair.key.toInt ≤ 10 :=
    plain.keyLength ▸ plain.keyShort
  have first := short (sample_plain ⟨9, ascii "abc"⟩ (by decide))
  have second := short (sample_plain ⟨2147483647, []⟩ (by decide))
  have third := short (sample_plain ⟨14, [0xc0]⟩ (by decide))
  change 0 + keyLength _ + 2 + 3 + 2 + keyLength _ + 2 + 0 + 2 + keyLength _ + 2 + 1 + 2 ≤ 65535
  omega

theorem sample_round_trips :
    (∃ written head bytes, RoundTrips sample 0 false false written head bytes) ∧
      ∃ read, yahooPacketRead sample [57, 0xc0, 0x80, 49] 4 = some read :=
  ⟨packets_round_trip.1 sample 0 false false sample_plain sample_fits,
    packets_round_trip.2 sample _ 4 (by decide)⟩

end Purple.Yahoo
