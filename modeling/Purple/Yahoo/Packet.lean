/-
The YMSG packets of yahoo_packet.c: their length, the writer, the reader.

`none` is an access outside the buffer.  The two callers of `yahoo_packet_read`
give it a length of 16 bits, so that no `int` position overflows.  A value is
given with the bytes that stand in its memory; as a C string it ends at a NUL.
-/

import Purple.Decimal
import Purple.Endian

namespace Purple.Yahoo

open Option CString Decimal Endian Memory

abbrev Bytes := List UInt8

structure YahooPair where
  key : Int32
  value : Bytes
  deriving DecidableEq, Repr

structure YahooPacket where
  service : UInt16
  status : Int32
  id : UInt32
  hash : List YahooPair
  deriving DecidableEq, Repr

def yahooPacketNew (service : UInt16) (status : Int32) (id : UInt32) : YahooPacket :=
  ⟨service, status, id, []⟩

def yahooPacketHashStr (pkt : YahooPacket) (key : Int32) (value : Bytes) : YahooPacket :=
  { pkt with hash := ⟨key, cString value⟩ :: pkt.hash }

def separator : Bytes := [0xc0, 0x80]

/-- `do { tmp /= 10; len++; } while (tmp);` -/
def keyLength (tmp : Int) : Nat :=
  if tmp.tdiv 10 = 0 then 1 else keyLength (tmp.tdiv 10) + 1
termination_by tmp.natAbs
decreasing_by
  rw [Int.natAbs_tdiv]
  refine Nat.div_lt_self (Nat.pos_of_ne_zero fun zero => ?_) (by decide)
  have more : ¬ tmp.tdiv 10 = 0 := by assumption
  exact more (by rw [Int.natAbs_eq_zero.mp zero]; rfl)

def yahooPacketLength (pkt : YahooPacket) : Nat :=
  pkt.hash.foldl (fun len pair =>
    len + keyLength pair.key.toInt + 2 + (cString pair.value).length + 2) 0

/-- `strcpy` and the two bytes behind the string. -/
def putString (data : Block UInt8) (pos : Nat) (text : Bytes) : Option (Block UInt8 × Nat) :=
  (data.store pos ((text ++ [0]).map some)).bind fun data =>
    (data.store (pos + text.length) [some 0xc0]).bind fun data =>
      (data.store (pos + text.length + 1) [some 0x80]).map fun data =>
        (data, pos + text.length + 2)

def writePairs (data : Block UInt8) (pos : Nat) : List YahooPair → Option (Block UInt8)
  | [] => some data
  | pair :: rest =>
    (putString data pos (printInt pair.key.toInt)).bind fun (data, pos) =>
      (putString data pos (cString pair.value)).bind fun (data, pos) => writePairs data pos rest

/-- The list of the packet is turned around for good. -/
def yahooPacketWrite (pkt : YahooPacket) (data : Block UInt8) (pos : Nat) :
    Option (YahooPacket × Block UInt8) :=
  let pkt := { pkt with hash := pkt.hash.reverse }
  (writePairs data pos pkt.hash).map fun data => (pkt, data)

def yahooPacketHdrlen : Nat := 4 + 2 + 2 + 2 + 2 + 4 + 4

def yahooWebmessengerProtoVer : Nat := 0x0065

def yahooProtoVerJapan : Nat := 0x0010

def yahooProtoVer : Nat := 0x0010

def protoVer (wm jp : Bool) : Nat :=
  if wm then yahooWebmessengerProtoVer else if jp then yahooProtoVerJapan else yahooProtoVer

def header (pkt : YahooPacket) (pktlen : Nat) (pad : Int) (wm jp : Bool) : Bytes :=
  ascii "YMSG" ++ big 2 (protoVer wm jp) ++ big 2 0 ++ big 2 ((pktlen + pad) % 2 ^ 16).toNat ++
    big 2 pkt.service.toNat ++ big 4 pkt.status.toUInt32.toNat ++ big 4 pkt.id.toNat

def yahooPacketBuild (pkt : YahooPacket) (pad : Int) (wm jp : Bool) :
    Option (YahooPacket × Block UInt8 × Nat) :=
  let pktlen := yahooPacketLength pkt
  let len := yahooPacketHdrlen + pktlen
  let data : Block UInt8 := List.replicate (len + 1) (some 0)
  (data.store 0 ((header pkt pktlen pad wm jp).map some)).bind fun data =>
    (yahooPacketWrite pkt data yahooPacketHdrlen).map fun (pkt, data) => (pkt, data, len)

def byteAt (data : Bytes) (len : Int) (pos : Nat) : Option UInt8 :=
  if (pos : Int) < len then data[pos]? else none

/-- `data[pos] == 0xc0 && data[pos + 1] == 0x80` -/
def separatorAt (data : Bytes) (len : Int) (pos : Nat) : Option Bool :=
  (byteAt data len pos).bind fun first =>
    if first = 0xc0 then (byteAt data len (pos + 1)).map (· == 0x80) else some false

/-- The loop over a key: the bytes it stores, `x` and `pos`. -/
def readKey (data : Bytes) (len : Int) (pos : Nat) (key : Bytes) (x : Nat) :
    Option (Bytes × Nat × Nat) :=
  if (pos : Int) + 1 < len then
    (separatorAt data len pos).bind fun found =>
      if found then some (key, x, pos)
      else if 63 ≤ x then readKey data len (pos + 1) key (x + 1)
      else (byteAt data len pos).bind fun byte => readKey data len (pos + 1) (key ++ [byte]) (x + 1)
  else some (key, x, pos)
termination_by (len - pos).toNat

/-- `g_strstr_len` with the separator: it stops at a NUL. -/
def strstrLen (data : Bytes) (len : Int) (pos : Nat) : Option (Option Nat) :=
  if (pos : Int) + 2 ≤ len then
    (byteAt data len pos).bind fun byte =>
      if byte = 0 then some none
      else
        (separatorAt data len pos).bind fun found =>
          if found then some (some pos) else strstrLen data len (pos + 1)
  else some none
termination_by (len - pos).toNat

def strndup (data : Bytes) (len : Int) (pos count : Nat) : Option Bytes :=
  if ((pos + count : Nat) : Int) ≤ len ∧ pos + count ≤ data.length then
    some (cString ((data.drop pos).take count))
  else none

def keptLength (x : Nat) : Nat := if 63 ≤ x then 0 else x

def readPair (data : Bytes) (len : Int) (pos : Nat) : Option (Nat × Option YahooPair) :=
  (readKey data len pos [] 0).bind fun (key, x, pos) =>
    if keptLength x = 0 ∨ ((pos + 2 : Nat) : Int) + 1 > len then some (pos + 2 + 2, none)
    else
      (strstrLen data len (pos + 2)).bind fun
        | none => some (len.toNat, none)
        | some delimiter =>
          (strndup data len (pos + 2) (delimiter - (pos + 2))).map fun value =>
            (delimiter + 2,
              some ⟨Int32.ofInt (strtol (cString (key.take (keptLength x)))), value⟩)

theorem readKey_forward {data : Bytes} {len : Int} {pos x last count : Nat} {key whole : Bytes}
    (read : readKey data len pos key x = some (whole, count, last)) : pos ≤ last := by
  induction pos, key, x using readKey.induct len with
  | case1 pos key x inside ihLong ihShort =>
    rw [readKey, if_pos inside] at read
    obtain ⟨found, looked, read⟩ := bind_eq_some_iff.mp read
    split at read
    · cases read
      exact Nat.le_refl _
    · split at read
      · exact Nat.le_of_succ_le (ihLong read)
      · obtain ⟨byte, _, read⟩ := bind_eq_some_iff.mp read
        exact Nat.le_of_succ_le (ihShort byte read)
  | case2 pos key x outside =>
    rw [readKey, if_neg outside] at read
    cases read
    exact Nat.le_refl _

theorem strstrLen_forward {data : Bytes} {len : Int} {pos delimiter : Nat}
    (found : strstrLen data len pos = some (some delimiter)) : pos ≤ delimiter := by
  induction pos using strstrLen.induct len with
  | case1 pos inside ih =>
    rw [strstrLen, if_pos inside] at found
    obtain ⟨byte, _, found⟩ := bind_eq_some_iff.mp found
    split at found
    · cases found
    · obtain ⟨here, _, found⟩ := bind_eq_some_iff.mp found
      split at found
      · cases found
        exact Nat.le_refl _
      · exact Nat.le_of_succ_le (ih found)
  | case2 pos outside =>
    rw [strstrLen, if_neg outside] at found
    cases found

theorem readPair_forward {data : Bytes} {len : Int} {pos next : Nat} {pair : Option YahooPair}
    (inside : (pos : Int) + 1 < len) (read : readPair data len pos = some (next, pair)) :
    pos < next := by
  obtain ⟨⟨key, x, last⟩, keyRead, read⟩ := bind_eq_some_iff.mp read
  have forward := readKey_forward keyRead
  dsimp only at read
  split at read
  · cases read
    omega
  · obtain ⟨found, searched, read⟩ := bind_eq_some_iff.mp read
    cases found with
    | none =>
      cases read
      omega
    | some delimiter =>
      have further := strstrLen_forward searched
      obtain ⟨value, _, same⟩ := map_eq_some_iff.mp read
      cases same
      omega

/-- The loop over the pairs.  Where there is no delimiter the position is `len`, which ends it. -/
def readPairs (data : Bytes) (len : Int) (pos : Nat) (hash : List YahooPair) :
    Option (List YahooPair) :=
  if _inside : (pos : Int) + 1 < len then
    (byteAt data len pos).bind fun byte =>
      if byte = 0 then some hash
      else
        match read : readPair data len pos with
        | none => none
        | some (next, pair) =>
          let hash := pair.toList ++ hash
          if (next : Int) + 1 > len then some hash
          else
            (byteAt data len 0).bind fun first =>
              (if first = 57 then (byteAt data len next).map (· == 1) else some false).bind
                fun garbage => readPairs data len (if garbage then next + 1 else next) hash
  else some hash
termination_by (len - pos).toNat
decreasing_by
  have forward := readPair_forward _inside read
  split <;> omega

def yahooPacketRead (pkt : YahooPacket) (data : Bytes) (len : Int) : Option YahooPacket :=
  (readPairs data len 0 pkt.hash).map fun hash => { pkt with hash := hash.reverse }

end Purple.Yahoo
