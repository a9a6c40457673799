/-
Chains of type-length-value records, from tlv.c.

A list is NULL where it is empty.  A loop is `none` where it has not returned in
the given number of rounds.
-/

import Mathlib.Algebra.Group.Nat.Defs
import Purple.Oscar.ByteStream

namespace Purple.Oscar

open List

/-- The length of the value is a `guint16`. -/
@[ext]
structure AimTlv where
  type : UInt16
  value : Bytes
  fits : value.length < 65536
deriving DecidableEq, Repr

namespace AimTlv

def length (tlv : AimTlv) : UInt16 := UInt16.ofNat tlv.value.length

theorem length_toNat (tlv : AimTlv) : tlv.length.toNat = tlv.value.length := by
  rw [length, UInt16.toNat_ofNat', Nat.mod_eq_of_lt tlv.fits]

end AimTlv

/-- The value is the first `length` bytes. -/
def createtlv (type length : UInt16) (value : Bytes) : AimTlv where
  type := type
  value := value.take length.toNat
  fits := Nat.lt_of_le_of_lt (length_take_le _ _) length.toNat_lt

def aimTlvRead (list : List AimTlv) (bs : ByteStream) : List AimTlv × ByteStream :=
  let type := bs.get16
  let length := type.2.get16
  if length.2.bytesLeft < length.1.toNat then ([], length.2)
  else if 0 < length.1.toNat then
    match length.2.getraw length.1.toNat with
    | (none, left) => ([], left)
    | (some value, left) => (createtlv type.1 length.1 value :: list, left)
  else (createtlv type.1 length.1 [] :: list, length.2)

/-- The loop of the three readers: it goes on while there are bytes and the
counter says so. -/
def tlvlistLoop (goes : UInt16 → Bool) (next : UInt16 → AimTlv → UInt16) :
    Nat → UInt16 → List AimTlv → ByteStream → Option (List AimTlv × ByteStream)
  | 0, _, _, _ => none
  | rounds + 1, counter, list, bs =>
    if 0 < bs.bytesLeft ∧ goes counter = true then
      match aimTlvRead list bs with
      | ([], left) => some ([], left)
      | (tlv :: before, left) =>
        tlvlistLoop goes next rounds (next counter tlv) (tlv :: before) left
    else some (list.reverse, bs)

def aimTlvlistRead (rounds : Nat) (bs : ByteStream) : Option (List AimTlv × ByteStream) :=
  tlvlistLoop (fun _ => true) (fun counter _ => counter) rounds 0 [] bs

def aimTlvlistReadnum (rounds : Nat) (bs : ByteStream) (num : UInt16) :
    Option (List AimTlv × ByteStream) :=
  tlvlistLoop (fun num => num ≠ 0) (fun num _ => num - 1) rounds num [] bs

/-- The remaining length is a `guint16` and wraps. -/
def aimTlvlistReadlen (rounds : Nat) (bs : ByteStream) (len : UInt16) :
    Option (List AimTlv × ByteStream) :=
  tlvlistLoop (fun len => 0 < len) (fun len tlv => len - (2 + 2 + tlv.length)) rounds len [] bs

/-- Addition of sizes in an `int`; `none` where it overflows. -/
def addSize (size more : Nat) : Option Nat := if size + more < 2 ^ 31 then some (size + more) else none

def aimTlvlistSize (list : List AimTlv) : Option Nat :=
  list.foldlM (fun size tlv => addSize size (4 + tlv.length.toNat)) 0

def aimTlvlistCount (list : List AimTlv) : Nat := list.length

def tlvWrite (bs : ByteStream) (tlv : AimTlv) : ByteStream :=
  let headed := (bs.put16 tlv.type).put16 tlv.length
  if 0 < tlv.length.toNat then headed.putraw tlv.value else headed

/-- The return value, which is 0 where the stream is too small, and the stream. -/
def aimTlvlistWrite (bs : ByteStream) (list : List AimTlv) : Option (Nat × ByteStream) :=
  (aimTlvlistSize list).map fun goodbuflen =>
    if bs.bytesLeft < goodbuflen then (0, bs) else (1, list.foldl tlvWrite bs)

/-- The two streams hold different bytes before they are written. -/
def aimTlvlistCmp (fresh other : Fresh) (one two : List AimTlv) : Option Nat := do
  let size ← aimTlvlistSize one
  let size' ← aimTlvlistSize two
  if size ≠ size' then return 1
  let bs1 ← aimTlvlistWrite (byteStreamNew fresh size) one
  let bs2 ← aimTlvlistWrite (byteStreamNew other size') two
  return if bs1.2.data ≠ bs2.2.data then 1 else 0

/-- The first record of the type; `nth` is 1. -/
def aimTlvGettlv (list : List AimTlv) (type : UInt16) : Option AimTlv :=
  list.find? fun tlv => tlv.type = type

def aimTlvlistAddRaw (list : List AimTlv) (type length : UInt16) (value : Bytes) : List AimTlv :=
  list ++ [createtlv type length value]

def aimTlvlistAddStr (list : List AimTlv) (type : UInt16) (value : Bytes) : List AimTlv :=
  aimTlvlistAddRaw list type (UInt16.ofNat value.length) value

def aimTlvlistAddNoval (list : List AimTlv) (type : UInt16) : List AimTlv :=
  aimTlvlistAddRaw list type 0 []

def aimTlvlistCopy (list : List AimTlv) : List AimTlv :=
  list.map fun tlv => createtlv tlv.type tlv.length tlv.value

/-- The first record of the type, or a new one at the end. -/
def aimTlvlistReplaceRaw (type length : UInt16) (value : Bytes) : List AimTlv → List AimTlv
  | [] => [createtlv type length value]
  | tlv :: rest =>
    if tlv.type = type then createtlv type length value :: rest
    else tlv :: aimTlvlistReplaceRaw type length value rest

def aimTlvlistReplaceStr (type : UInt16) (value : Bytes) (list : List AimTlv) : List AimTlv :=
  aimTlvlistReplaceRaw type (UInt16.ofNat value.length) value list

def aimTlvlistRemove (list : List AimTlv) (type : UInt16) : List AimTlv :=
  list.filter fun tlv => tlv.type ≠ type

theorem aimTlvlistCopy_eq (list : List AimTlv) : aimTlvlistCopy list = list := by
  have same : ∀ tlv : AimTlv, createtlv tlv.type tlv.length tlv.value = tlv := by
    intro tlv
    refine AimTlv.ext rfl ?_
    change tlv.value.take tlv.length.toNat = tlv.value
    rw [tlv.length_toNat, take_length]
  rw [aimTlvlistCopy, funext same, List.map_id']

def tlvBytes (tlv : AimTlv) : Bytes :=
  aimutilPut16 tlv.type ++ aimutilPut16 tlv.length ++ tlv.value

def tlvsBytes (tlvs : List AimTlv) : Bytes := tlvs.flatMap tlvBytes

@[simp] theorem tlvsBytes_nil : tlvsBytes [] = [] := rfl

@[simp] theorem tlvsBytes_cons (tlv : AimTlv) (tlvs : List AimTlv) :
    tlvsBytes (tlv :: tlvs) = tlvBytes tlv ++ tlvsBytes tlvs := rfl

theorem tlvBytes_length (tlv : AimTlv) : (tlvBytes tlv).length = 4 + tlv.value.length := by
  rw [tlvBytes, length_append, length_append]
  rfl

theorem tlvsBytes_append (front rest : List AimTlv) :
    tlvsBytes (front ++ rest) = tlvsBytes front ++ tlvsBytes rest := flatMap_append

theorem tlvBytes_get (tlv : AimTlv) (more : Bytes) :
    aimutilGet16 (tlvBytes tlv ++ more) = tlv.type ∧
      aimutilGet16 ((tlvBytes tlv ++ more).drop 2) = tlv.length ∧
      (tlvBytes tlv ++ more).drop 4 = tlv.value ++ more := by
  have split : tlvBytes tlv ++ more =
      aimutilPut16 tlv.type ++ (aimutilPut16 tlv.length ++ (tlv.value ++ more)) := by
    rw [tlvBytes, append_assoc, append_assoc]
  rw [split]
  exact ⟨get16_put16 _ _, get16_put16 _ _, rfl⟩

theorem tlvBytes_injective {first second : AimTlv} {left right : Bytes}
    (same : tlvBytes first ++ left = tlvBytes second ++ right) :
    first = second ∧ left = right := by
  simp only [tlvBytes, append_assoc] at same
  obtain ⟨types, behind⟩ := put16_injective same
  obtain ⟨lengths, values⟩ := put16_injective behind
  have sizes : first.value.length = second.value.length := by
    rw [← first.length_toNat, lengths, second.length_toNat]
  obtain ⟨contents, rests⟩ := append_inj values sizes
  exact ⟨AimTlv.ext types contents, rests⟩

theorem tlvsBytes_nonempty (tlv : AimTlv) (tlvs : List AimTlv) : tlvsBytes (tlv :: tlvs) ≠ [] := by
  intro empty
  have lengths := congrArg List.length empty
  rw [tlvsBytes_cons, length_append, tlvBytes_length, length_nil] at lengths
  omega

theorem tlvsBytes_injective {first second : List AimTlv}
    (same : tlvsBytes first = tlvsBytes second) : first = second := by
  induction first generalizing second with
  | nil =>
    cases second with
    | nil => rfl
    | cons tlv rest => exact absurd same.symm (tlvsBytes_nonempty tlv rest)
  | cons tlv rest ih =>
    cases second with
    | nil => exact absurd same (tlvsBytes_nonempty tlv rest)
    | cons other rest' =>
      rw [tlvsBytes_cons, tlvsBytes_cons] at same
      obtain ⟨records, rests⟩ := tlvBytes_injective same
      rw [records, ih rests]

end Purple.Oscar
