/-
Streams of bytes with a position, from bstream.c.

A stream is read and written at its position.  A read or write that the rest of
the stream has no room for does nothing and reads as 0.
-/

import Mathlib.Data.List.Basic

namespace Purple.Oscar

open List

abbrev Bytes := List UInt8

/-- `aimutil_get16` -/
def aimutilGet16 : Bytes → UInt16
  | high :: low :: _ => UInt16.ofNat (high.toNat * 256 + low.toNat)
  | _ => 0

/-- `aimutil_put16` -/
def aimutilPut16 (value : UInt16) : Bytes :=
  [UInt8.ofNat (value.toNat / 256), UInt8.ofNat value.toNat]

@[simp] theorem aimutilPut16_length (value : UInt16) : (aimutilPut16 value).length = 2 := rfl

theorem get16_put16 (value : UInt16) (more : Bytes) :
    aimutilGet16 (aimutilPut16 value ++ more) = value := by
  have bound := value.toNat_lt
  apply UInt16.toNat_inj.mp
  rw [aimutilPut16, cons_append, cons_append, aimutilGet16, UInt16.toNat_ofNat',
    UInt8.toNat_ofNat', UInt8.toNat_ofNat']
  omega

theorem put16_get16 (high low : UInt8) (more : Bytes) :
    aimutilPut16 (aimutilGet16 (high :: low :: more)) = [high, low] := by
  have highBound := high.toNat_lt
  have lowBound := low.toNat_lt
  have number : (aimutilGet16 (high :: low :: more)).toNat = high.toNat * 256 + low.toNat := by
    rw [aimutilGet16, UInt16.toNat_ofNat']
    omega
  have first : UInt8.ofNat ((high.toNat * 256 + low.toNat) / 256) = high := by
    apply UInt8.toNat_inj.mp
    rw [UInt8.toNat_ofNat']
    omega
  have second : UInt8.ofNat (high.toNat * 256 + low.toNat) = low := by
    apply UInt8.toNat_inj.mp
    rw [UInt8.toNat_ofNat']
    omega
  rw [aimutilPut16, number, first, second]

theorem put16_injective {first second : UInt16} {left right : Bytes}
    (same : aimutilPut16 first ++ left = aimutilPut16 second ++ right) :
    first = second ∧ left = right := by
  have numbers := congrArg aimutilGet16 same
  rw [get16_put16, get16_put16] at numbers
  rw [numbers] at same
  exact ⟨numbers, append_cancel_left same⟩

structure ByteStream where
  data : Bytes
  offset : Nat
deriving DecidableEq, Repr

namespace ByteStream

def bytesLeft (bs : ByteStream) : Nat := bs.data.length - bs.offset

def rest (bs : ByteStream) : Bytes := bs.data.drop bs.offset

def skip (bs : ByteStream) (count : Nat) : ByteStream := { bs with offset := bs.offset + count }

def rewind (bs : ByteStream) : ByteStream := { bs with offset := 0 }

@[simp] theorem rest_length (bs : ByteStream) : bs.rest.length = bs.bytesLeft :=
  List.length_drop

@[simp] theorem skip_data (bs : ByteStream) (count : Nat) : (bs.skip count).data = bs.data := rfl

@[simp] theorem skip_offset (bs : ByteStream) (count : Nat) :
    (bs.skip count).offset = bs.offset + count := rfl

theorem skip_skip (bs : ByteStream) (first second : Nat) :
    (bs.skip first).skip second = bs.skip (first + second) := by
  simp only [skip, Nat.add_assoc]

theorem rest_skip (bs : ByteStream) (count : Nat) : (bs.skip count).rest = bs.rest.drop count := by
  rw [rest, rest, drop_drop]
  rfl

/-- `byte_stream_get16` -/
def get16 (bs : ByteStream) : UInt16 × ByteStream :=
  if 2 ≤ bs.bytesLeft then (aimutilGet16 bs.rest, bs.skip 2) else (0, bs)

/-- `byte_stream_getraw` -/
def getraw (bs : ByteStream) (len : Nat) : Option Bytes × ByteStream :=
  if len ≤ bs.bytesLeft then (some (bs.rest.take len), bs.skip len) else (none, bs)

/-- `byte_stream_putraw` -/
def putraw (bs : ByteStream) (bytes : Bytes) : ByteStream :=
  if bytes.length ≤ bs.bytesLeft then
    { data := bs.data.take bs.offset ++ bytes ++ bs.data.drop (bs.offset + bytes.length)
      offset := bs.offset + bytes.length }
  else bs

/-- `byte_stream_put16` -/
def put16 (bs : ByteStream) (value : UInt16) : ByteStream := bs.putraw (aimutilPut16 value)

/-- `byte_stream_put32` -/
def put32 (bs : ByteStream) (value : UInt32) : ByteStream :=
  bs.putraw [(value >>> 24).toUInt8, (value >>> 16).toUInt8, (value >>> 8).toUInt8, value.toUInt8]

/-- `byte_stream_put8` -/
def put8 (bs : ByteStream) (value : UInt8) : ByteStream := bs.putraw [value]

/-- `byte_stream_putbs`: the two streams. -/
def putbs (bs src : ByteStream) (len : Nat) : ByteStream × ByteStream :=
  if len ≤ src.bytesLeft ∧ len ≤ bs.bytesLeft then (bs.putraw (src.rest.take len), src.skip len)
  else (bs, src)

theorem get16_enough {bs : ByteStream} (enough : 2 ≤ bs.rest.length) :
    bs.get16 = (aimutilGet16 bs.rest, bs.skip 2) := by
  rw [get16, if_pos (bs.rest_length ▸ enough)]

theorem get16_short {bs : ByteStream} (short : bs.rest.length < 2) : bs.get16 = (0, bs) := by
  rw [rest_length] at short
  rw [get16, if_neg (Nat.not_le_of_lt short)]

/-- A stream of `size` bytes in which `bytes` stand before the position. -/
structure Filled (bs : ByteStream) (bytes : Bytes) (size : Nat) : Prop where
  written : bs.data.take bs.offset = bytes
  offset : bs.offset = bytes.length
  size : bs.data.length = size

theorem filled_putraw {bs : ByteStream} {bytes more : Bytes} {size : Nat}
    (filled : Filled bs bytes size) (room : bytes.length + more.length ≤ size) :
    Filled (bs.putraw more) (bytes ++ more) size := by
  obtain ⟨written, offset, sized⟩ := filled
  have front : (bs.data.take bs.offset ++ more).length = bs.offset + more.length := by
    rw [length_append, written, offset]
  have enough : more.length ≤ bs.bytesLeft := by
    rw [bytesLeft, sized, offset]
    omega
  rw [putraw, if_pos enough]
  refine ⟨?_, ?_, ?_⟩
  · rw [take_left' front, written]
  · rw [length_append, offset]
  · change (bs.data.take bs.offset ++ more ++ bs.data.drop _).length = size
    rw [length_append, front, List.length_drop, offset, sized]
    omega

theorem filled_whole {bs : ByteStream} {bytes : Bytes} {size : Nat}
    (filled : Filled bs bytes size) (whole : bytes.length = size) :
    bs = { data := bytes, offset := bytes.length } := by
  obtain ⟨data, position⟩ := bs
  obtain ⟨written, offset, sized⟩ := filled
  change position = bytes.length at offset
  change data.take position = bytes at written
  rw [offset, take_of_length_le (Nat.le_of_eq (sized.trans whole.symm))] at written
  exact congrArg₂ ByteStream.mk written offset

end ByteStream

structure Fresh where
  bytes : Nat → Bytes
  sized : ∀ len, (bytes len).length = len

def zeroed : Fresh := ⟨fun len => List.replicate len 0, fun _ => length_replicate⟩

/-- `byte_stream_new` -/
def byteStreamNew (fresh : Fresh) (len : Nat) : ByteStream :=
  { data := fresh.bytes len, offset := 0 }

theorem filled_new (fresh : Fresh) (len : Nat) : (byteStreamNew fresh len).Filled [] len :=
  ⟨rfl, rfl, fresh.sized len⟩

end Purple.Oscar
