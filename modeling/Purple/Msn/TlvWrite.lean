/-
The buffer that a list of TLVs is written to, `msn_tlvlist_write` of tlv.c.

The buffer grows by 256 bytes where the next TLV does not fit.  A store outside it
makes the function `none`.
-/

import Purple.Msn.P2p

namespace Purple.Msn

open List Memory

structure TlvWriter where
  buf : Block UInt8
  tmp : Nat
  bytesLeft : Nat
  totalLen : Nat

def TlvWriter.start : TlvWriter :=
  { buf := List.replicate 256 none, tmp := 0, bytesLeft := 256, totalLen := 256 }

def TlvWriter.grow (writer : TlvWriter) : TlvWriter :=
  let bytesLeft := writer.bytesLeft + 256
  let totalLen := writer.totalLen + 256
  { buf := writer.buf.realloc totalLen, tmp := totalLen - bytesLeft, bytesLeft, totalLen }

def TlvWriter.reserve (writer : TlvWriter) (size : Nat) : TlvWriter :=
  if writer.bytesLeft < size then writer.grow else writer

def TlvWriter.write (writer : TlvWriter) (tlv : MsnTlv) : Option TlvWriter :=
  let size := tlv.length.toNat + 2
  let writer := writer.reserve size
  (writer.buf.store writer.tmp ((tlvBytes tlv).map some)).map fun buf =>
    { writer with buf, tmp := writer.tmp + size, bytesLeft := writer.bytesLeft - size }

def TlvWriter.align (writer : TlvWriter) : Option (Block UInt8 × UInt8) :=
  let totalLen := writer.totalLen - writer.bytesLeft
  let bytesLeft := 4 - totalLen % 4
  if bytesLeft ≠ 4 then
    (writer.buf.store writer.tmp (List.replicate bytesLeft (some 0))).map fun buf =>
      (buf, UInt8.ofNat (totalLen + bytesLeft))
  else some (writer.buf, UInt8.ofNat totalLen)

/-- The allocation and `*out_len`. -/
def tlvlistWriteBuf (list : List MsnTlv) : Option (Block UInt8 × UInt8) :=
  (list.foldlM TlvWriter.write TlvWriter.start).bind TlvWriter.align

variable {writer : TlvWriter} {list : List MsnTlv}

theorem tlvBytes_length (tlv : MsnTlv) : (tlvBytes tlv).length = tlv.value.length + 2 := rfl

/-- The bytes that were written stand at the front, in front of the free ones. -/
structure TlvWriter.Holds (writer : TlvWriter) (written : Bytes) : Prop where
  allocated : writer.buf.length = writer.totalLen
  cursor : writer.tmp = written.length
  free : written.length + writer.bytesLeft = writer.totalLen
  whole : writer.totalLen % 256 = 0
  few : written ≠ [] ∧ writer.bytesLeft < 256 ∨ written = [] ∧ writer.bytesLeft = 256
  held : written.map some <+: writer.buf

theorem start_holds : TlvWriter.start.Holds [] where
  allocated := length_replicate
  cursor := rfl
  free := rfl
  whole := rfl
  few := .inr ⟨rfl, rfl⟩
  held := nil_prefix

/-- No free byte is left, and the TLV does not fit into 256 new ones. -/
def tlvCut (written : Bytes) (tlv : MsnTlv) : Prop :=
  tlv.value.length = 255 ∧ written ≠ [] ∧ written.length % 256 = 0

theorem reserve_holds {written : Bytes} (holds : writer.Holds written) (size : Nat) :
    (writer.reserve size).buf.length = (writer.reserve size).totalLen ∧
      (writer.reserve size).tmp = written.length ∧
      written.length + (writer.reserve size).bytesLeft = (writer.reserve size).totalLen ∧
      (writer.reserve size).totalLen % 256 = 0 ∧
      written.map some <+: (writer.reserve size).buf := by
  obtain ⟨allocated, cursor, free, whole, few, held⟩ := holds
  rw [TlvWriter.reserve]
  split
  · have kept : (written.map some).length ≤ writer.totalLen + 256 := by
      rw [length_map]
      omega
    refine ⟨Block.realloc_length _ _, ?_, ?_, ?_, Block.prefix_realloc held kept⟩
    · change writer.totalLen + 256 - (writer.bytesLeft + 256) = _
      omega
    · change written.length + (writer.bytesLeft + 256) = writer.totalLen + 256
      omega
    · change (writer.totalLen + 256) % 256 = 0
      omega
  · exact ⟨allocated, cursor, free, whole, held⟩

/-- Growing once makes room for every TLV but the longest one, and for that one unless
the buffer was full. -/
theorem reserve_room {written : Bytes} (holds : writer.Holds written) (tlv : MsnTlv) :
    tlv.value.length + 2 ≤ (writer.reserve (tlv.length.toNat + 2)).bytesLeft ↔
      ¬ tlvCut written tlv := by
  obtain ⟨allocated, cursor, free, whole, few, held⟩ := holds
  have fits := tlv.fits
  have empty : written = [] ↔ written.length = 0 := length_eq_zero_iff.symm
  rw [TlvWriter.reserve, tlv.length_toNat, tlvCut, ne_eq, empty]
  rw [ne_eq, empty] at few
  split
  · change tlv.value.length + 2 ≤ writer.bytesLeft + 256 ↔ _
    constructor
    · intro room cut
      omega
    · intro uncut
      by_contra short
      exact uncut ⟨by omega, by omega, by omega⟩
  · constructor
    · intro room cut
      omega
    · intro _
      omega

theorem reserve_left {written : Bytes} (holds : writer.Holds written) {size : Nat}
    (positive : 0 < size) : (writer.reserve size).bytesLeft - size < 256 := by
  have few := holds.few
  rw [TlvWriter.reserve]
  split
  · change writer.bytesLeft + 256 - size < 256
    omega
  · omega

theorem write_holds {written : Bytes} {tlv : MsnTlv} (holds : writer.Holds written)
    (uncut : ¬ tlvCut written tlv) :
    ∃ next, writer.write tlv = some next ∧ next.Holds (written ++ tlvBytes tlv) := by
  have room := (reserve_room holds tlv).mpr uncut
  have before := holds.few
  obtain ⟨allocated, cursor, free, whole, held⟩ := reserve_holds holds (tlv.length.toNat + 2)
  have fits : (written.map some).length + ((tlvBytes tlv).map some).length ≤
      (writer.reserve (tlv.length.toNat + 2)).buf.length := by
    rw [length_map, length_map, tlvBytes_length, allocated]
    omega
  obtain ⟨buf, stored, sized, front⟩ := Block.store_after held fits
  rw [length_map, ← cursor] at stored
  rw [← map_append] at front
  refine ⟨_, by rw [TlvWriter.write, stored]; rfl, ?_⟩
  have size := tlv.length_toNat
  constructor
  · exact sized.trans allocated
  · rw [length_append, tlvBytes_length, ← size, ← cursor]
  · rw [length_append, tlvBytes_length]
    change written.length + (tlv.value.length + 2) +
      ((writer.reserve (tlv.length.toNat + 2)).bytesLeft - (tlv.length.toNat + 2)) =
        (writer.reserve (tlv.length.toNat + 2)).totalLen
    omega
  · exact whole
  · refine .inl ⟨?_, reserve_left holds (Nat.succ_pos _)⟩
    exact append_ne_nil_of_right_ne_nil written (cons_ne_nil _ _)
  · exact front

theorem write_cut {written : Bytes} {tlv : MsnTlv} (holds : writer.Holds written)
    (cut : tlvCut written tlv) : writer.write tlv = none := by
  have full := (not_congr (reserve_room holds tlv)).mpr (not_not_intro cut)
  obtain ⟨allocated, cursor, free, whole, held⟩ := reserve_holds holds (tlv.length.toNat + 2)
  rw [TlvWriter.write, Block.store, if_neg]
  · rfl
  · rw [length_map, tlvBytes_length, allocated]
    omega

def writesInside (written : Bytes) (list : List MsnTlv) : Prop :=
  ∀ front tlv back, list = front ++ tlv :: back → ¬ tlvCut (written ++ front.flatMap tlvBytes) tlv

theorem writesInside_cons (written : Bytes) (tlv : MsnTlv) (list : List MsnTlv) :
    writesInside written (tlv :: list) ↔
      ¬ tlvCut written tlv ∧ writesInside (written ++ tlvBytes tlv) list := by
  constructor
  · intro inside
    constructor
    · have first := inside [] tlv list rfl
      rw [flatMap_nil, append_nil] at first
      exact first
    · intro front other back split
      have later := inside (tlv :: front) other back (by rw [split]; rfl)
      rw [flatMap_cons, ← append_assoc] at later
      exact later
  · rintro ⟨first, later⟩ front other back split
    cases front with
    | nil =>
      cases split
      rw [flatMap_nil, append_nil]
      exact first
    | cons head front =>
      cases split
      rw [flatMap_cons, ← append_assoc]
      exact later front other back rfl

theorem writes_holds {written : Bytes} (holds : writer.Holds written)
    (inside : writesInside written list) :
    ∃ final, list.foldlM TlvWriter.write writer = some final ∧
      final.Holds (written ++ list.flatMap tlvBytes) := by
  induction list generalizing writer written with
  | nil =>
    rw [flatMap_nil, append_nil]
    exact ⟨writer, rfl, holds⟩
  | cons tlv list ih =>
    obtain ⟨uncut, later⟩ := (writesInside_cons written tlv list).mp inside
    obtain ⟨next, done, nextHolds⟩ := write_holds holds uncut
    obtain ⟨final, rest, finalHolds⟩ := ih nextHolds later
    rw [append_assoc] at finalHolds
    refine ⟨final, ?_, finalHolds⟩
    rw [foldlM_cons, done]
    exact rest

theorem writes_cut {written : Bytes} (holds : writer.Holds written)
    (outside : ¬ writesInside written list) : list.foldlM TlvWriter.write writer = none := by
  induction list generalizing writer written with
  | nil =>
    refine absurd (fun front tlv back split => ?_) outside
    exact absurd (congrArg List.length split) (by simp)
  | cons tlv list ih =>
    rw [foldlM_cons]
    by_cases cut : tlvCut written tlv
    · rw [write_cut holds cut]
      rfl
    · obtain ⟨next, done, nextHolds⟩ := write_holds holds cut
      have later : ¬ writesInside (written ++ tlvBytes tlv) list := fun inside =>
        outside ((writesInside_cons written tlv list).mpr ⟨cut, inside⟩)
      rw [done]
      exact ih nextHolds later

theorem align_holds (holds : writer.Holds (list.flatMap tlvBytes)) :
    ∃ buf, writer.align = some (buf, (msnTlvlistWrite list).2) ∧
      (msnTlvlistWrite list).1.map some <+: buf := by
  obtain ⟨allocated, cursor, free, whole, few, held⟩ := holds
  have length : writer.totalLen - writer.bytesLeft = (list.flatMap tlvBytes).length := by omega
  rw [TlvWriter.align, msnTlvlistWrite, length]
  dsimp only
  rw [tlvPadding]
  by_cases aligned : (list.flatMap tlvBytes).length % 4 = 0
  · rw [if_neg (by omega), if_pos aligned, replicate_zero, append_nil]
    exact ⟨writer.buf, rfl, held⟩
  · have room : ((list.flatMap tlvBytes).map some).length +
        (List.replicate (4 - (list.flatMap tlvBytes).length % 4) (some (0 : UInt8))).length ≤
          writer.buf.length := by
      rw [length_map, length_replicate, allocated]
      omega
    obtain ⟨buf, stored, _, front⟩ := Block.store_after held room
    rw [length_map] at stored
    rw [if_pos (by omega), if_neg aligned, cursor, stored, length_append, length_replicate]
    refine ⟨buf, rfl, ?_⟩
    rw [map_append, map_replicate]
    exact front

theorem tlvlistWriteBuf_some (inside : writesInside [] list) :
    ∃ buf, tlvlistWriteBuf list = some (buf, (msnTlvlistWrite list).2) ∧
      (msnTlvlistWrite list).1.map some <+: buf := by
  obtain ⟨final, done, holds⟩ := writes_holds start_holds inside
  rw [nil_append] at holds
  rw [tlvlistWriteBuf, done, Option.bind_some]
  exact align_holds holds

theorem tlvlistWriteBuf_isSome_iff (list : List MsnTlv) :
    (tlvlistWriteBuf list).isSome = true ↔ writesInside [] list := by
  by_cases inside : writesInside [] list
  · obtain ⟨buf, written, _⟩ := tlvlistWriteBuf_some inside
    rw [written]
    exact ⟨fun _ => inside, fun _ => rfl⟩
  · rw [tlvlistWriteBuf, writes_cut start_holds inside]
    exact ⟨fun written => Bool.noConfusion written, fun holds => absurd holds inside⟩

end Purple.Msn
