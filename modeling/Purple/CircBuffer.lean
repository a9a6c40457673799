/-
The circular buffer of circbuffer.c over an explicit memory block.

A pointer is `none` for NULL, else its offset from `buf->buffer`; the block
pointer is NULL exactly when `inptr` and `outptr` are.  Sizes are unbounded,
as the buffer is assumed never to outgrow `gsize`.  A copy that leaves the
block makes the operation `none`.
-/

import Purple.Memory.Block
import Purple.PartialRun

open List Option

namespace Purple.CircBuffer

open Memory

structure PurpleCircBuffer where
  buffer : Block UInt8
  growsize : Nat
  buflen : Nat
  bufused : Nat
  inptr : Option Nat
  outptr : Option Nat

namespace PurpleCircBuffer

def inOffset (buf : PurpleCircBuffer) : Nat := buf.inptr.getD 0

def outOffset (buf : PurpleCircBuffer) : Nat := buf.outptr.getD 0

end PurpleCircBuffer

def defaultBufSize : Nat := 256

def purpleCircBufferNew (growsize : Nat) : PurpleCircBuffer :=
  { buffer := []
    growsize := if growsize ≠ 0 then growsize else defaultBufSize
    buflen := 0
    bufused := 0
    inptr := none
    outptr := none }

/-- The growth loop.  Every round adds `growsize`, so `bufused + len` rounds
are enough once `growsize` is positive. -/
def growBuflen (growsize bufused len : Nat) : Nat → Nat → Nat
  | 0, buflen => buflen
  | rounds + 1, buflen =>
    if buflen - bufused < len then growBuflen growsize bufused len rounds (buflen + growsize)
    else buflen

/-- The shift at the end of `grow_circ_buffer`, for a fill pointer that has
wrapped: the new block and the new fill offset. -/
def shiftWrapped (buffer : Block UInt8) (startBuflen buflen inOffset : Nat) :
    Option (Block UInt8 × Nat) := do
  let shiftN := min (buflen - startBuflen) inOffset
  let shifted ← buffer.load 0 shiftN
  let buffer ← buffer.store startBuflen shifted
  -- the wrapped bytes that do not fit at the end move down to the start
  if shiftN < inOffset then
    let rest ← buffer.load shiftN (inOffset - shiftN)
    let buffer ← buffer.store 0 rest
    return (buffer, inOffset - shiftN)
  else
    return (buffer, startBuflen + inOffset)

def growCircBuffer (buf : PurpleCircBuffer) (len : Nat) : Option PurpleCircBuffer :=
  let buflen := growBuflen buf.growsize buf.bufused len (buf.bufused + len) buf.buflen
  let buffer := buf.buffer.realloc buflen
  let inOffset := buf.inOffset
  let outOffset := buf.outOffset
  if inOffset < outOffset ∨ (inOffset = outOffset ∧ 0 < buf.bufused) then
    (shiftWrapped buffer buf.buflen buflen inOffset).map fun (buffer, inOffset) =>
      { buf with buffer, buflen, inptr := some inOffset, outptr := some outOffset }
  else
    some { buf with buffer, buflen, inptr := some inOffset, outptr := some outOffset }

/-- The part of `purple_circ_buffer_append` after the growth test. -/
def fillCircBuffer (buf : PurpleCircBuffer) (src : List UInt8) : Option PurpleCircBuffer := do
  let len := src.length
  let lenStored :=
    if buf.outOffset ≤ buf.inOffset then min len (buf.buflen - buf.inOffset) else len
  let buffer ← buf.buffer.store buf.inOffset ((src.take lenStored).map some)
  if lenStored < len then
    let buffer ← buffer.store 0 ((src.drop lenStored).map some)
    return { buf with buffer, inptr := some (len - lenStored), bufused := buf.bufused + len }
  else
    return { buf with
      buffer, inptr := buf.inptr.map (· + lenStored), bufused := buf.bufused + len }

def purpleCircBufferAppend (buf : PurpleCircBuffer) (src : List UInt8) :
    Option PurpleCircBuffer :=
  if buf.buflen - buf.bufused < src.length then
    (growCircBuffer buf src.length).bind fun grown => fillCircBuffer grown src
  else fillCircBuffer buf src

def purpleCircBufferGetMaxRead (buf : PurpleCircBuffer) : Nat :=
  if buf.bufused = 0 then 0
  else if buf.inOffset ≤ buf.outOffset then buf.buflen - buf.outOffset
  else buf.inOffset - buf.outOffset

/-- The Boolean is the returned `gboolean`. -/
def purpleCircBufferMarkRead (buf : PurpleCircBuffer) (len : Nat) : Bool × PurpleCircBuffer :=
  if len ≤ purpleCircBufferGetMaxRead buf then
    let moved := buf.outptr.map (· + len)
    -- wrap to the start if we are at the end
    let outptr := if moved.getD 0 = buf.buflen then moved.map fun _ => 0 else moved
    (true, { buf with outptr, bufused := buf.bufused - len })
  else (false, buf)

inductive Call where
  | append (src : List UInt8)
  | getMaxRead
  | markRead (len : Nat)

/-- A buffer together with the bytes appended to it and not yet marked read. -/
structure Tracked where
  buf : PurpleCircBuffer
  unread : List UInt8

def Tracked.start (growsize : Nat) : Tracked :=
  { buf := purpleCircBufferNew growsize, unread := [] }

def step (state : Tracked) : Call → Option Tracked
  | .append src => (purpleCircBufferAppend state.buf src).map fun buf =>
    { buf, unread := state.unread ++ src }
  | .getMaxRead => some state
  | .markRead len =>
    let (accepted, buf) := purpleCircBufferMarkRead state.buf len
    some { buf, unread := if accepted then state.unread.drop len else state.unread }

/-- Read `get_max_read` bytes at `outptr` and mark them read until none is left. -/
def drain : Nat → PurpleCircBuffer → Option (List (Option UInt8))
  | 0, _ => none
  | rounds + 1, buf =>
    let available := purpleCircBufferGetMaxRead buf
    if available = 0 then some [] else do
      let bytes ← buf.buffer.load buf.outOffset available
      let rest ← drain rounds (purpleCircBufferMarkRead buf available).2
      return bytes ++ rest

structure Agrees (state : Tracked) : Prop where
  drained : drain (state.buf.bufused + 1) state.buf = some (state.unread.map some)
  used : state.buf.bufused = state.unread.length
  empty : purpleCircBufferGetMaxRead state.buf = 0 ↔ state.unread = []
  inInside : state.buf.inOffset ≤ state.buf.buflen
  outInside : state.buf.outOffset ≤ state.buf.buflen

/-- An empty buffer whose fill pointer rests at the end while the remove
pointer has wrapped to the start, asked to grow.  `grow_circ_buffer` keeps both
offsets there, although they only denote the same place in the old size. -/
def StaleGrowth (state : Tracked) : Call → Prop
  | .append src =>
    state.buf.bufused = 0 ∧ state.buf.inOffset ≠ state.buf.outOffset ∧
      state.buf.buflen < src.length
  | .getMaxRead => False
  | .markRead _ => False

/-- Offset of the `index`-th unread byte. -/
def ringIndex (outOffset buflen index : Nat) : Nat :=
  if outOffset + index < buflen then outOffset + index else outOffset + index - buflen

/-- The fill pointer follows the unread bytes, wraps around, or rests unwrapped
at the end of a buffer that has been emptied up to its end. -/
def Positioned (buf : PurpleCircBuffer) : Prop :=
  (buf.inOffset = buf.outOffset + buf.bufused ∧ buf.inOffset ≤ buf.buflen) ∨
  (0 < buf.inOffset ∧ buf.inOffset + buf.buflen = buf.outOffset + buf.bufused) ∨
  (buf.bufused = 0 ∧ buf.outOffset = 0 ∧ buf.inOffset = buf.buflen)

def Stores (buf : PurpleCircBuffer) (queue : List UInt8) : Prop :=
  ∀ index, index < queue.length →
    buf.buffer[ringIndex buf.outOffset buf.buflen index]? = some queue[index]?

structure Holds (buf : PurpleCircBuffer) (queue : List UInt8) : Prop where
  growPositive : 0 < buf.growsize
  allocated : buf.buffer.length = buf.buflen
  used : buf.bufused = queue.length
  fits : buf.bufused ≤ buf.buflen
  outInside : buf.outOffset ≤ buf.buflen ∧ (0 < buf.buflen → buf.outOffset < buf.buflen)
  inNull : buf.inptr = none → buf.buflen = 0
  outNull : buf.outptr = none → buf.buflen = 0
  positioned : Positioned buf
  stores : Stores buf queue

variable {buf : PurpleCircBuffer} {queue src : List UInt8} {len : Nat}

theorem holds_new (growsize : Nat) : Holds (purpleCircBufferNew growsize) [] := by
  refine
    { growPositive := ?_
      allocated := rfl
      used := rfl
      fits := Nat.le_refl 0
      outInside := ⟨Nat.le_refl 0, fun positive => positive⟩
      inNull := fun _ => rfl
      outNull := fun _ => rfl
      positioned := Or.inl ⟨rfl, Nat.le_refl 0⟩
      stores := fun _ impossible => absurd impossible (Nat.not_lt_zero _) }
  simp only [purpleCircBufferNew, defaultBufSize]
  split <;> omega

/-! ### Growing -/

theorem growBuflen_enough {growsize bufused : Nat} (len : Nat) (positive : 0 < growsize)
    (rounds buflen : Nat) (fits : bufused ≤ buflen)
    (enough : len ≤ (buflen - bufused) + rounds) :
    buflen ≤ growBuflen growsize bufused len rounds buflen ∧
      len ≤ growBuflen growsize bufused len rounds buflen - bufused := by
  induction rounds generalizing buflen with
  | zero => exact ⟨Nat.le_refl _, enough⟩
  | succ rounds ih =>
    rw [growBuflen]
    split
    · have grown := ih (buflen + growsize) (by omega) (by omega)
      exact ⟨by omega, grown.2⟩
    · exact ⟨Nat.le_refl _, by omega⟩

private theorem straight_grow {buflen : Nat} (holds : Holds buf queue)
    (larger : buf.buflen ≤ buflen) (straight : buf.inOffset = buf.outOffset + buf.bufused)
    (inside : buf.inOffset ≤ buf.buflen) (room : buf.bufused < buflen) :
    Holds { buf with
      buffer := buf.buffer.realloc buflen
      buflen := buflen
      inptr := some buf.inOffset
      outptr := some buf.outOffset } queue := by
  have used := holds.used
  have outside := holds.outInside
  refine
    { growPositive := holds.growPositive
      allocated := Block.realloc_length _ _
      used := holds.used
      fits := Nat.le_of_lt room
      outInside := ?_
      inNull := fun impossible => by cases impossible
      outNull := fun impossible => by cases impossible
      positioned := Or.inl ⟨straight, Nat.le_trans inside larger⟩
      stores := ?_ }
  · change buf.outOffset ≤ buflen ∧ (0 < buflen → buf.outOffset < buflen)
    omega
  · intro index within
    have old := holds.stores index within
    have oldIndex : ringIndex buf.outOffset buf.buflen index = buf.outOffset + index :=
      if_pos (by omega)
    have newIndex : ringIndex buf.outOffset buflen index = buf.outOffset + index :=
      if_pos (by omega)
    change (buf.buffer.realloc buflen)[ringIndex buf.outOffset buflen index]? = _
    rw [oldIndex] at old
    rw [newIndex, Block.realloc_kept _ (by omega) (by rw [holds.allocated]; omega), old]

private theorem shiftWrapped_spec {buffer : Block UInt8} {start size : Nat} (inOffset : Nat)
    (sized : buffer.length = size) (larger : start ≤ size) (inside : inOffset ≤ start) :
    ∃ moved newIn, shiftWrapped buffer start size inOffset = some (moved, newIn) ∧
      moved.length = size ∧
      ((newIn = start + inOffset ∧ newIn ≤ size) ∨ (0 < newIn ∧ newIn + size = start + inOffset)) ∧
      (∀ index, inOffset ≤ index → index < start → moved[index]? = buffer[index]?) ∧
      ∀ index, index < inOffset → moved[ringIndex start size index]? = buffer[index]? := by
  obtain ⟨shifted, loaded⟩ : ∃ shifted,
      buffer.load 0 (min (size - start) inOffset) = some shifted :=
    ⟨_, Block.load_some buffer (by omega)⟩
  obtain ⟨-, length, cells⟩ := (Block.load_eq_some_iff _ _ _ _).mp loaded
  obtain ⟨moved, stored⟩ : ∃ moved, buffer.store start shifted = some moved :=
    ⟨_, Block.store_some buffer (by omega)⟩
  have movedLength : moved.length = size := (Block.store_length stored).trans sized
  have below (index : Nat) (before : index < start) : moved[index]? = buffer[index]? :=
    Block.store_outside stored (Or.inl before)
  have above (index : Nat) (within : index < min (size - start) inOffset) :
      moved[start + index]? = buffer[index]? := by
    rw [Block.store_inside stored (by omega), cells index within, Nat.zero_add]
  simp only [shiftWrapped, loaded, bind_eq_bind, bind_some, stored]
  by_cases split : min (size - start) inOffset < inOffset
  · have shiftN : min (size - start) inOffset = size - start := by omega
    rw [if_pos split, shiftN]
    rw [shiftN] at split above
    obtain ⟨rest, restLoaded⟩ : ∃ rest,
        moved.load (size - start) (inOffset - (size - start)) = some rest :=
      ⟨_, Block.load_some moved (by omega)⟩
    obtain ⟨-, restLength, restCells⟩ := (Block.load_eq_some_iff _ _ _ _).mp restLoaded
    obtain ⟨final, finalStored⟩ : ∃ final, moved.store 0 rest = some final :=
      ⟨_, Block.store_some moved (by omega)⟩
    rw [restLoaded, bind_some, finalStored]
    refine ⟨final, _, rfl, (Block.store_length finalStored).trans movedLength,
      Or.inr (by omega), ?_, ?_⟩
    · intro index after before
      rw [Block.store_outside finalStored (Or.inr (by omega)), below index before]
    · intro index within
      unfold ringIndex
      by_cases fitting : start + index < size
      · rw [if_pos fitting, Block.store_outside finalStored (Or.inr (by omega)),
          above index (by omega)]
      · rw [if_neg fitting, ← Nat.zero_add (start + index - size),
          Block.store_inside finalStored (by omega), restCells _ (by omega),
          below _ (by omega)]
        congr 1
        omega
  · rw [if_neg split]
    refine ⟨moved, _, rfl, movedLength, Or.inl (by omega), fun index _ => below index, ?_⟩
    intro index within
    rw [ringIndex, if_pos (by omega), above index (by omega)]

private theorem wrapped_grow {buflen : Nat} (holds : Holds buf queue)
    (larger : buf.buflen ≤ buflen)
    (wrapped : buf.inOffset + buf.buflen = buf.outOffset + buf.bufused) :
    ∃ moved newIn,
      shiftWrapped (buf.buffer.realloc buflen) buf.buflen buflen buf.inOffset =
        some (moved, newIn) ∧
      Holds { buf with
        buffer := moved, buflen := buflen, inptr := some newIn, outptr := some buf.outOffset }
        queue := by
  have used := holds.used
  have fits := holds.fits
  have outside := holds.outInside
  obtain ⟨moved, newIn, shifted, length, position, unmoved, wrappedCells⟩ :=
    shiftWrapped_spec buf.inOffset (Block.realloc_length buf.buffer buflen) larger (by omega)
  have oldCell (index : Nat) (within : index < buf.buflen) :
      (buf.buffer.realloc buflen)[index]? = buf.buffer[index]? :=
    Block.realloc_kept _ (by omega) (by rw [holds.allocated]; omega)
  refine ⟨moved, newIn, shifted, ?_⟩
  refine
    { growPositive := holds.growPositive
      allocated := length
      used := holds.used
      fits := Nat.le_trans fits larger
      outInside := ?_
      inNull := fun impossible => by cases impossible
      outNull := fun impossible => by cases impossible
      positioned := ?_
      stores := ?_ }
  · change buf.outOffset ≤ buflen ∧ (0 < buflen → buf.outOffset < buflen)
    omega
  · rcases position with ⟨straight, inside⟩ | ⟨positive, around⟩
    · exact Or.inl ⟨by change newIn = buf.outOffset + buf.bufused; omega, inside⟩
    · exact Or.inr (Or.inl ⟨positive, by change newIn + buflen = buf.outOffset + buf.bufused; omega⟩)
  · intro index within
    have old := holds.stores index within
    change moved[ringIndex buf.outOffset buflen index]? = _
    by_cases first : buf.outOffset + index < buf.buflen
    · rw [ringIndex, if_pos first] at old
      rw [ringIndex, if_pos (by omega), unmoved _ (by omega) first, oldCell _ first, old]
    · -- byte `index` sits in the wrapped prefix, at the offset it has past the old end
      rw [ringIndex, if_neg first] at old
      have same : ringIndex buf.outOffset buflen index =
          ringIndex buf.buflen buflen (buf.outOffset + index - buf.buflen) := by
        unfold ringIndex
        rw [Nat.add_sub_cancel' (Nat.le_of_not_lt first)]
      rw [same, wrappedCells _ (by omega), oldCell _ (by omega), old]

theorem growCircBuffer_holds (holds : Holds buf queue) (full : buf.buflen - buf.bufused < len)
    (fresh : ¬(buf.bufused = 0 ∧ buf.inOffset ≠ buf.outOffset)) :
    ∃ grown, growCircBuffer buf len = some grown ∧ Holds grown queue ∧
      len ≤ grown.buflen - grown.bufused := by
  have used := holds.used
  have fits := holds.fits
  have outside := holds.outInside
  obtain ⟨larger, room⟩ := growBuflen_enough len holds.growPositive
    (buf.bufused + len) buf.buflen fits (by omega)
  simp only [growCircBuffer]
  generalize growBuflen buf.growsize buf.bufused len (buf.bufused + len) buf.buflen = buflen
    at larger room ⊢
  rcases holds.positioned with ⟨straight, inside⟩ | ⟨positive, wrapped⟩ | ⟨empty, atStart, atEnd⟩
  · rw [if_neg (by omega)]
    exact ⟨_, rfl, straight_grow holds larger straight inside (by omega), room⟩
  · rw [if_pos (by omega)]
    obtain ⟨moved, newIn, shifted, grown⟩ := wrapped_grow holds larger wrapped
    rw [shifted]
    exact ⟨_, rfl, grown, room⟩
  · rw [if_neg (by omega)]
    exact ⟨_, rfl, straight_grow holds larger (by omega) (by omega) (by omega), room⟩

/-! ### Filling -/

/-- `Positioned`, of the four numbers that it is about. -/
private def Sits (inOffset outOffset bufused buflen : Nat) : Prop :=
  (inOffset = outOffset + bufused ∧ inOffset ≤ buflen) ∨
  (0 < inOffset ∧ inOffset + buflen = outOffset + bufused) ∨
  (bufused = 0 ∧ outOffset = 0 ∧ inOffset = buflen)

/-- A block that keeps the old bytes and has `src` in the places behind them
stores the longer queue. -/
private theorem stores_append (holds : Holds buf queue) {buffer : Block UInt8}
    {inptr : Option Nat} {used : Nat} (kept : ∀ index, index < queue.length →
      buffer[ringIndex buf.outOffset buf.buflen index]? =
        buf.buffer[ringIndex buf.outOffset buf.buflen index]?)
    (added : ∀ index, index < src.length →
      buffer[ringIndex buf.outOffset buf.buflen (queue.length + index)]? = some src[index]?) :
    Stores { buf with buffer := buffer, inptr := inptr, bufused := used } (queue ++ src) := by
  intro index within
  change buffer[ringIndex buf.outOffset buf.buflen index]? = _
  by_cases old : index < queue.length
  · rw [kept index old, holds.stores index old, getElem?_append_left old]
  · have split : index = queue.length + (index - queue.length) := by omega
    rw [length_append] at within
    rw [getElem?_append_right (by omega), split, added _ (by omega)]
    congr 2
    omega

private theorem map_some_getElem (src : List UInt8) {index : Nat} (within : index < src.length) :
    (src.map some)[index]? = some src[index]? := by
  rw [getElem?_map, getElem?_eq_getElem within]
  rfl

/-- What `fillCircBuffer` relies on for the part of `len` bytes that it stores
at the fill offset. -/
private structure Places (inOffset outOffset bufused buflen len lenStored : Nat) : Prop where
  bound : lenStored ≤ len
  inside : inOffset + lenStored ≤ buflen
  atEnd : lenStored < len → inOffset + lenStored = buflen
  added : ∀ index, index < lenStored →
    ringIndex outOffset buflen (bufused + index) = inOffset + index
  around : ∀ index, lenStored ≤ index → index < len →
    ringIndex outOffset buflen (bufused + index) = index - lenStored
  kept : ∀ index, index < bufused →
    (ringIndex outOffset buflen index < inOffset ∨
      inOffset + lenStored ≤ ringIndex outOffset buflen index) ∧
    len - lenStored ≤ ringIndex outOffset buflen index
  once : lenStored = len → Sits (inOffset + len) outOffset (bufused + len) buflen
  twice : lenStored < len → Sits (len - lenStored) outOffset (bufused + len) buflen

private theorem places_straight {outOffset bufused buflen : Nat}
    (inside : outOffset + bufused ≤ buflen) (room : bufused + len ≤ buflen) :
    Places (outOffset + bufused) outOffset bufused buflen len
      (min len (buflen - (outOffset + bufused))) := by
  refine
    { bound := Nat.min_le_left _ _
      inside := by omega
      atEnd := fun _ => by omega
      added := ?_
      around := ?_
      kept := ?_
      once := fun _ => Or.inl ⟨by omega, by omega⟩
      twice := fun _ => Or.inr (Or.inl ⟨by omega, by omega⟩) }
  · intro index within
    rw [ringIndex, if_pos (by omega), Nat.add_assoc]
  · intro index after within
    rw [ringIndex, if_neg (by omega)]
    omega
  · intro index within
    rw [ringIndex, if_pos (by omega)]
    exact ⟨Or.inl (by omega), by omega⟩

private theorem places_wrapped {inOffset outOffset bufused buflen : Nat} (positive : 0 < inOffset)
    (wrapped : inOffset + buflen = outOffset + bufused) (outside : outOffset ≤ buflen)
    (room : bufused + len ≤ buflen) : Places inOffset outOffset bufused buflen len len := by
  refine
    { bound := Nat.le_refl _
      inside := by omega
      atEnd := fun impossible => absurd impossible (Nat.lt_irrefl _)
      added := ?_
      around := fun index after within => absurd within (Nat.not_lt_of_le after)
      kept := ?_
      once := fun _ => Or.inr (Or.inl ⟨by omega, by omega⟩)
      twice := fun impossible => absurd impossible (Nat.lt_irrefl _) }
  · intro index within
    rw [ringIndex, if_neg (by omega)]
    omega
  · intro index within
    rw [Nat.sub_self]
    refine ⟨?_, Nat.zero_le _⟩
    by_cases ahead : outOffset + index < buflen
    · rw [ringIndex, if_pos ahead]
      exact Or.inr (by omega)
    · rw [ringIndex, if_neg ahead]
      exact Or.inl (by omega)

private theorem places_rested {buflen : Nat} (room : len ≤ buflen) :
    Places buflen 0 0 buflen len 0 where
  bound := Nat.zero_le _
  inside := Nat.le_refl _
  atEnd := fun _ => rfl
  added := fun _ impossible => absurd impossible (Nat.not_lt_zero _)
  around := fun index _ within => by
    rw [ringIndex, if_pos (by omega)]
    omega
  kept := fun _ impossible => absurd impossible (Nat.not_lt_zero _)
  once := fun empty => Or.inr (Or.inr ⟨by omega, rfl, by omega⟩)
  twice := fun _ => Or.inl ⟨by omega, room⟩

private theorem fill_places (positioned : Positioned buf) (outside : buf.outOffset ≤ buf.buflen)
    (room : buf.bufused + len ≤ buf.buflen) :
    Places buf.inOffset buf.outOffset buf.bufused buf.buflen len
      (if buf.outOffset ≤ buf.inOffset then min len (buf.buflen - buf.inOffset) else len) := by
  rcases positioned with ⟨straight, inside⟩ | ⟨positive, wrapped⟩ | ⟨empty, atStart, atEnd⟩
  · rw [if_pos (by omega), straight]
    exact places_straight (straight ▸ inside) room
  · have stored : (if buf.outOffset ≤ buf.inOffset then min len (buf.buflen - buf.inOffset)
        else len) = len := by
      split
      · omega
      · rfl
    rw [stored]
    exact places_wrapped positive wrapped outside room
  · rw [empty, Nat.zero_add] at room
    rw [if_pos (by omega), atEnd, Nat.sub_self, Nat.min_zero, empty, atStart]
    exact places_rested room

private theorem fillCircBuffer_once (holds : Holds buf queue)
    (room : buf.bufused + src.length ≤ buf.buflen) {first : Block UInt8}
    (stored : buf.buffer.store buf.inOffset (src.map some) = some first)
    (places : Places buf.inOffset buf.outOffset buf.bufused buf.buflen src.length src.length) :
    Holds { buf with
      buffer := first
      inptr := buf.inptr.map (· + src.length)
      bufused := buf.bufused + src.length } (queue ++ src) := by
  have used := holds.used
  have moved : (buf.inptr.map (· + src.length)).getD 0 = buf.inOffset + src.length := by
    unfold PurpleCircBuffer.inOffset
    cases pointer : buf.inptr with
    | none =>
      have empty := holds.inNull pointer
      simp only [map_none, getD_none]
      omega
    | some offset => rfl
  refine
    { growPositive := holds.growPositive
      allocated := (Block.store_length stored).trans holds.allocated
      used := by rw [length_append, ← used]
      fits := room
      outInside := holds.outInside
      inNull := fun null => holds.inNull (map_eq_none_iff.mp null)
      outNull := holds.outNull
      positioned := ?_
      stores := stores_append holds ?_ ?_ }
  · change Sits ((buf.inptr.map (· + src.length)).getD 0) _ _ _
    rw [moved]
    exact places.once rfl
  · intro index within
    exact Block.store_outside stored (by
      rw [length_map]
      exact (places.kept index (by omega)).1)
  · intro index within
    rw [← used, places.added index within,
      Block.store_inside stored (by rw [length_map]; exact within), map_some_getElem _ within]

private theorem fillCircBuffer_twice {lenStored : Nat} (holds : Holds buf queue)
    (room : buf.bufused + src.length ≤ buf.buflen) (split : lenStored < src.length)
    {first second : Block UInt8}
    (firstStored : buf.buffer.store buf.inOffset ((src.take lenStored).map some) = some first)
    (secondStored : first.store 0 ((src.drop lenStored).map some) = some second)
    (places : Places buf.inOffset buf.outOffset buf.bufused buf.buflen src.length lenStored) :
    Holds { buf with
      buffer := second
      inptr := some (src.length - lenStored)
      bufused := buf.bufused + src.length } (queue ++ src) := by
  have used := holds.used
  have atEnd := places.atEnd split
  have firstLength : ((src.take lenStored).map some).length = lenStored := by
    rw [length_map, length_take]
    omega
  have secondLength : ((src.drop lenStored).map some).length = src.length - lenStored := by
    rw [length_map, List.length_drop]
  refine
    { growPositive := holds.growPositive
      allocated := by
        rw [Block.store_length secondStored, Block.store_length firstStored, holds.allocated]
      used := by rw [length_append, ← used]
      fits := room
      outInside := holds.outInside
      inNull := fun impossible => by cases impossible
      outNull := holds.outNull
      positioned := places.twice split
      stores := stores_append holds ?_ ?_ }
  · intro index within
    obtain ⟨away, after⟩ := places.kept index (by omega)
    rw [Block.store_outside secondStored (Or.inr (by omega)),
      Block.store_outside firstStored (by rw [firstLength]; exact away)]
  · intro index within
    rw [← used]
    by_cases before : index < lenStored
    · rw [places.added index before, Block.store_outside secondStored (Or.inr (by omega)),
        Block.store_inside firstStored (by omega), map_some_getElem _ (by
          rw [length_take]; omega), getElem?_take_of_lt before]
    · rw [places.around index (by omega) within, ← Nat.zero_add (index - lenStored),
        Block.store_inside secondStored (by omega), map_some_getElem _ (by
          rw [List.length_drop]; omega), getElem?_drop]
      congr 2
      omega

theorem fillCircBuffer_holds (holds : Holds buf queue)
    (room : buf.bufused + src.length ≤ buf.buflen) :
    ∃ filled, fillCircBuffer buf src = some filled ∧ Holds filled (queue ++ src) := by
  have allocated := holds.allocated
  simp only [fillCircBuffer]
  have places := fill_places holds.positioned holds.outInside.1 room
  generalize (if buf.outOffset ≤ buf.inOffset then
    min src.length (buf.buflen - buf.inOffset) else src.length) = lenStored at places ⊢
  have bound := places.bound
  have inside := places.inside
  obtain ⟨first, firstStored⟩ : ∃ first,
      buf.buffer.store buf.inOffset ((src.take lenStored).map some) = some first :=
    ⟨_, Block.store_some _ (by rw [length_map, length_take]; omega)⟩
  rw [firstStored, bind_eq_bind, bind_some]
  by_cases split : lenStored < src.length
  · obtain ⟨second, secondStored⟩ : ∃ second,
        first.store 0 ((src.drop lenStored).map some) = some second :=
      ⟨_, Block.store_some _ (by
        rw [Block.store_length firstStored, length_map, List.length_drop]; omega)⟩
    rw [if_pos split, secondStored]
    exact ⟨_, rfl, fillCircBuffer_twice holds room split firstStored secondStored places⟩
  · have whole : lenStored = src.length := by omega
    subst whole
    rw [take_length] at firstStored
    rw [if_neg split]
    exact ⟨_, rfl, fillCircBuffer_once holds room firstStored places⟩

theorem purpleCircBufferAppend_holds (holds : Holds buf queue)
    (fresh : ¬(buf.bufused = 0 ∧ buf.inOffset ≠ buf.outOffset ∧ buf.buflen < src.length)) :
    ∃ appended, purpleCircBufferAppend buf src = some appended ∧
      Holds appended (queue ++ src) := by
  have fits := holds.fits
  unfold purpleCircBufferAppend
  split
  · rename_i full
    obtain ⟨grown, grew, grownHolds, room⟩ :=
      growCircBuffer_holds holds full (fun stale => fresh ⟨stale.1, stale.2, by omega⟩)
    have grownFits := grownHolds.fits
    rw [grew, bind_some]
    by_cases empty : src.length = 0
    · omega
    · exact fillCircBuffer_holds grownHolds (by omega)
  · exact fillCircBuffer_holds holds (by omega)

/-! ### Reading -/

theorem getMaxRead_le_used (holds : Holds buf queue) :
    purpleCircBufferGetMaxRead buf ≤ buf.bufused := by
  have positioned := holds.positioned
  have fits := holds.fits
  have outside := holds.outInside
  unfold Positioned at positioned
  unfold purpleCircBufferGetMaxRead
  split
  · omega
  · split <;> omega

theorem getMaxRead_eq_zero_iff (holds : Holds buf queue) :
    purpleCircBufferGetMaxRead buf = 0 ↔ queue = [] := by
  have positioned := holds.positioned
  have outside := holds.outInside
  have fits := holds.fits
  rw [← length_eq_zero_iff, ← holds.used]
  unfold Positioned at positioned
  unfold purpleCircBufferGetMaxRead
  split
  · omega
  · split <;> omega

theorem getMaxRead_loads (holds : Holds buf queue) :
    buf.buffer.load buf.outOffset (purpleCircBufferGetMaxRead buf) =
      some ((queue.take (purpleCircBufferGetMaxRead buf)).map some) := by
  have positioned := holds.positioned
  have outside := holds.outInside
  have allocated := holds.allocated
  have used := holds.used
  have fits := holds.fits
  have bound := getMaxRead_le_used holds
  have room : buf.outOffset + purpleCircBufferGetMaxRead buf ≤ buf.buflen := by
    unfold Positioned at positioned
    unfold purpleCircBufferGetMaxRead
    split
    · omega
    · split <;> omega
  refine (Block.load_eq_some_iff _ _ _ _).mpr ⟨by omega, ?_, ?_⟩
  · rw [length_map, length_take]
    omega
  · intro index within
    have stored := holds.stores index (by omega)
    rw [ringIndex, if_pos (by omega)] at stored
    rw [stored, map_some_getElem _ (by rw [length_take]; omega),
      getElem?_take_of_lt within]

private theorem ringIndex_advance {outOffset buflen index : Nat} (inside : index < buflen) :
    ringIndex (if outOffset + len = buflen then 0 else outOffset + len) buflen index =
      ringIndex outOffset buflen (len + index) := by
  unfold ringIndex
  by_cases last : outOffset + len = buflen
  · rw [if_pos last, if_pos (by omega), if_neg (by omega)]
    omega
  · rw [if_neg last, Nat.add_assoc]

private theorem sits_advance {inOffset outOffset bufused buflen : Nat}
    (sits : Sits inOffset outOffset bufused buflen) (fits : bufused ≤ buflen)
    (outside : outOffset ≤ buflen ∧ (0 < buflen → outOffset < buflen))
    (readable : len ≤ if bufused = 0 then 0
      else if inOffset ≤ outOffset then buflen - outOffset else inOffset - outOffset) :
    Sits inOffset (if outOffset + len = buflen then 0 else outOffset + len) (bufused - len)
      buflen := by
  by_cases none : bufused = 0
  · rw [if_pos none] at readable
    have same : (if outOffset + len = buflen then 0 else outOffset + len) = outOffset := by
      split
      · omega
      · omega
    rw [same, Nat.le_zero.mp readable]
    exact sits
  rw [if_neg none] at readable
  rcases sits with ⟨straight, inside⟩ | ⟨positive, wrapped⟩ | ⟨empty, -, -⟩
  · rw [if_neg (by omega)] at readable
    by_cases last : outOffset + len = buflen
    · rw [if_pos last]
      exact Or.inr (Or.inr ⟨by omega, rfl, by omega⟩)
    · rw [if_neg last]
      exact Or.inl ⟨by omega, inside⟩
  · rw [if_pos (by omega)] at readable
    by_cases last : outOffset + len = buflen
    · rw [if_pos last]
      exact Or.inl ⟨by omega, by omega⟩
    · rw [if_neg last]
      exact Or.inr (Or.inl ⟨positive, by omega⟩)
  · exact absurd empty none

theorem markRead_holds (holds : Holds buf queue) (readable : len ≤ purpleCircBufferGetMaxRead buf) :
    Holds (purpleCircBufferMarkRead buf len).2 (queue.drop len) := by
  have outside := holds.outInside
  have used := holds.used
  have fits := holds.fits
  have bound := getMaxRead_le_used holds
  have room : buf.outOffset + purpleCircBufferGetMaxRead buf ≤ buf.buflen := by
    have loaded := getMaxRead_loads holds
    exact holds.allocated ▸ ((Block.load_eq_some_iff _ _ _ _).mp loaded).1
  have moved : (buf.outptr.map (· + len)).getD 0 = buf.outOffset + len := by
    unfold PurpleCircBuffer.outOffset
    cases pointer : buf.outptr with
    | none =>
      have empty := holds.outNull pointer
      simp only [map_none, getD_none]
      omega
    | some offset => rfl
  simp only [purpleCircBufferMarkRead, if_pos readable, moved]
  generalize newOut : (if buf.outOffset + len = buf.buflen then
    (buf.outptr.map (· + len)).map fun _ => 0 else buf.outptr.map (· + len)) = outptr
  have newOffset : outptr.getD 0 =
      if buf.outOffset + len = buf.buflen then 0 else buf.outOffset + len := by
    rw [← newOut]
    split
    · cases buf.outptr <;> rfl
    · exact moved
  have newNull : outptr = none → buf.outptr = none := by
    rw [← newOut]
    split
    · exact fun null => map_eq_none_iff.mp (map_eq_none_iff.mp null)
    · exact fun null => map_eq_none_iff.mp null
  refine
    { growPositive := holds.growPositive
      allocated := holds.allocated
      used := by rw [List.length_drop, ← used]
      fits := by change buf.bufused - len ≤ buf.buflen; omega
      outInside := ?_
      inNull := holds.inNull
      outNull := fun null => holds.outNull (newNull null)
      positioned := ?_
      stores := ?_ }
  · change outptr.getD 0 ≤ buf.buflen ∧ (0 < buf.buflen → outptr.getD 0 < buf.buflen)
    rw [newOffset]
    split <;> omega
  · change Sits buf.inOffset (outptr.getD 0) (buf.bufused - len) buf.buflen
    rw [newOffset]
    exact sits_advance holds.positioned fits outside readable
  · intro index within
    rw [List.length_drop] at within
    have old := holds.stores (len + index) (by omega)
    change buf.buffer[ringIndex (outptr.getD 0) buf.buflen index]? = _
    rw [getElem?_drop, ← old, newOffset, ringIndex_advance (by omega)]

theorem markRead_refused (refused : ¬len ≤ purpleCircBufferGetMaxRead buf) :
    purpleCircBufferMarkRead buf len = (false, buf) :=
  if_neg refused

theorem drain_holds (holds : Holds buf queue) (rounds : Nat) (enough : buf.bufused < rounds) :
    drain rounds buf = some (queue.map some) := by
  induction rounds generalizing buf queue with
  | zero => exact absurd enough (Nat.not_lt_zero _)
  | succ rounds ih =>
    rw [drain]
    by_cases none : purpleCircBufferGetMaxRead buf = 0
    · rw [if_pos none, (getMaxRead_eq_zero_iff holds).mp none]
      rfl
    · have bound := getMaxRead_le_used holds
      have after := markRead_holds holds (Nat.le_refl _)
      have rest := ih after (by
        rw [after.used, List.length_drop, ← holds.used]
        omega)
      simp only [if_neg none, getMaxRead_loads holds, bind_eq_bind, bind_some, rest]
      change some _ = some _
      rw [← map_append, take_append_drop]

theorem agrees_of_holds {state : Tracked} (holds : Holds state.buf state.unread) :
    Agrees state := by
  have positioned := holds.positioned
  have outside := holds.outInside
  have fits := holds.fits
  refine
    { drained := drain_holds holds _ (Nat.lt_succ_self _)
      used := holds.used
      empty := getMaxRead_eq_zero_iff holds
      inInside := ?_
      outInside := outside.1 }
  unfold Positioned at positioned
  omega

theorem step_holds (state : Tracked) (call : Call) (holds : Holds state.buf state.unread)
    (fresh : ¬StaleGrowth state call) :
    ∃ next, step state call = some next ∧ Holds next.buf next.unread := by
  cases call with
  | append src =>
    obtain ⟨buf, appended, after⟩ := purpleCircBufferAppend_holds holds fresh
    exact ⟨_, by rw [step, appended]; rfl, after⟩
  | getMaxRead => exact ⟨state, rfl, holds⟩
  | markRead len =>
    by_cases readable : len ≤ purpleCircBufferGetMaxRead state.buf
    · have accepted : purpleCircBufferMarkRead state.buf len =
          (true, (purpleCircBufferMarkRead state.buf len).2) := by
        rw [purpleCircBufferMarkRead, if_pos readable]
      exact ⟨_, by rw [step, accepted], markRead_holds holds readable⟩
    · exact ⟨state, by rw [step, markRead_refused readable]; rfl, holds⟩

/-- In a run that never grows a stale buffer, the buffer is the queue of the
unread bytes in every state the run reaches. -/
theorem purpleCircBuffer_refines_queue (growsize : Nat) (calls : List Call)
    (fresh : PartialRun.Admitted step (fun state call => ¬StaleGrowth state call)
      (Tracked.start growsize) calls) (done : List Call) (reached : done <+: calls) :
    ∃ state, PartialRun.run step (Tracked.start growsize) done = some state ∧ Agrees state := by
  obtain ⟨state, ran, holds⟩ := PartialRun.reached
    (fun state : Tracked => Holds state.buf state.unread) step_holds (holds_new growsize) fresh reached
  exact ⟨state, ran, agrees_of_holds holds⟩

/-- Filling, emptying and refilling a four-byte buffer past its size. -/
def staleCalls : List Call :=
  [.append [97, 98, 99, 100], .markRead 4, .append [101, 102, 103, 104, 105]]

theorem purpleCircBuffer_refines_queue_witness :
    ∃ state, PartialRun.run step (Tracked.start 4) [.append [97, 98, 99], .markRead 2] =
      some state ∧ Agrees state := by
  apply purpleCircBuffer_refines_queue 4 [.append [97, 98, 99], .markRead 2] _ _
    (prefix_refl _)
  refine ⟨fun stale => absurd stale.2.1 (by decide), fun next _ => ⟨id, fun _ _ => trivial⟩⟩

theorem staleCalls_not_queue :
    ¬∀ (growsize : Nat) (calls : List Call), ∃ state,
      PartialRun.run step (Tracked.start growsize) calls = some state ∧ Agrees state := by
  intro refines
  obtain ⟨state, ran, agrees⟩ := refines 4 staleCalls
  have computed : PartialRun.run step (Tracked.start 4) staleCalls = some
      { buf :=
          { buffer := [105, 98, 99, 100, 101, 102, 103, 104].map some
            growsize := 4
            buflen := 8
            bufused := 5
            inptr := some 1
            outptr := some 0 }
        unread := [101, 102, 103, 104, 105] } := rfl
  rw [computed] at ran
  cases ran
  -- the first read returns the last byte appended
  exact absurd agrees.drained (by decide)

end Purple.CircBuffer
