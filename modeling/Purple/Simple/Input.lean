/-
Reading from a SIP server over TCP, from simple.c, over every way of cutting the stream
into reads.

The messages that `process_input_message` is given are recorded.  It does not touch the
connection.  A read or a store outside the buffer, or a size that does not fit the `int`
in which the connection keeps it, makes the operation `none`.  Between two reads the
buffer holds what was received of the first message that is not complete, with a NUL
behind it.
-/

import Purple.Framing
import Purple.PartialRun
import Purple.Simple.SipText

namespace Purple.Simple

open Memory CString

def intMax : Nat := 2 ^ 31 - 1

def simpleBufInc : Nat := 1024

/-- `listed` is whether the connection has not been removed. -/
structure SipConnection where
  inbuf : Block UInt8
  inbuflen : Nat
  inbufused : Nat
  listed : Bool
  processed : List SipMsg

def isBreak (byte : UInt8) : Bool := byte = 13 || byte = 10

def countBreaks : Block UInt8 → Option Nat
  | [] => none
  | none :: _ => none
  | some byte :: rest => if isBreak byte then (countBreaks rest).map (· + 1) else some 0

def memmove (inbuf : Block UInt8) (start count : Nat) : Option (Block UInt8) :=
  (inbuf.load start count).bind fun cells => inbuf.store 0 cells

/-- `conn->inbufused = strlen(conn->inbuf)`. -/
def measure (conn : SipConnection) : Option SipConnection :=
  (blockString conn.inbuf).map fun string => { conn with inbufused := string.length }

/-- The bytes behind the line breaks move, but not the NUL behind them. -/
def removeBreaks (conn : SipConnection) : Option SipConnection :=
  (countBreaks conn.inbuf).bind fun breaks =>
    if breaks = 0 then some conn
    else if conn.inbufused < breaks then none
    else
      (memmove conn.inbuf breaks (conn.inbufused - breaks)).bind fun inbuf =>
        measure { conn with inbuf }

/-- The message is complete with its body, which is behind `cur`. -/
def takeMessage (conn : SipConnection) (msg : SipMsg) (cur : Nat) : Option SipConnection :=
  (conn.inbuf.load cur msg.bodylen.toNat).bind fun cells =>
    (cells.mapM id).bind fun body =>
      let cur := cur + msg.bodylen.toNat
      (memmove conn.inbuf cur (conn.inbuflen - cur)).bind fun inbuf =>
        (measure { conn with inbuf }).map fun conn =>
          { conn with processed := conn.processed ++ [{ msg with body }] }

/-- The header block was read: the byte that was cut off comes back. -/
def processHeader (conn : SipConnection) (msg : SipMsg) (cur : Nat) : Option SipConnection :=
  (conn.inbuf.store cur [some 13]).bind fun inbuf =>
    let conn := { conn with inbuf }
    let restlen : Int := conn.inbufused - (cur + 2 : Nat)
    if msg.bodylen ≤ restlen then takeMessage conn msg (cur + 2) else some conn

def processMessage (conn : SipConnection) : Option SipConnection :=
  (blockString conn.inbuf).bind fun string =>
    match strstr blankLine string with
    | none => some conn
    | some offset =>
      (conn.inbuf.store (offset + 2) [some 0]).bind fun inbuf =>
        (blockString inbuf).bind fun header =>
          (sipmsgParseHeader header).bind fun msg =>
            match msg with
            | none => some { conn with inbuf }
            | some msg => processHeader { conn with inbuf } msg (offset + 2)

def processInput (conn : SipConnection) : Option SipConnection :=
  (removeBreaks conn).bind processMessage

/-- What one `read` returns. -/
inductive Reading where
  | data (bytes : Bytes) (positive : bytes ≠ []) (short : bytes.length ≤ simpleBufInc - 1)
  | again
  | failed

def growInbuf (conn : SipConnection) : Option SipConnection :=
  if conn.inbuflen < conn.inbufused + simpleBufInc then
    let inbuflen := conn.inbuflen + simpleBufInc
    if intMax < inbuflen then none
    else some { conn with inbuflen, inbuf := conn.inbuf.realloc inbuflen }
  else some conn

def receive (conn : SipConnection) (bytes : Bytes) : Option SipConnection :=
  (conn.inbuf.store conn.inbufused (bytes.map some)).bind fun inbuf =>
    let inbufused := conn.inbufused + bytes.length
    (inbuf.store inbufused [some 0]).bind fun inbuf =>
      processInput { conn with inbuf, inbufused }

def simpleInputCb (conn : SipConnection) (reading : Reading) : Option SipConnection :=
  if conn.listed then
    (growInbuf conn).bind fun conn =>
      match reading with
      | .data bytes _ _ => receive conn bytes
      | .again => some conn
      | .failed => some { conn with listed := false }
  else some conn

def SipConnection.start : SipConnection :=
  { inbuf := [], inbuflen := 0, inbufused := 0, listed := true, processed := [] }

open List Option Framing

/-- The buffer holds these bytes, and a NUL behind them once something was received. -/
structure Holds (conn : SipConnection) (tail : Bytes) (begun : Prop) : Prop where
  used : conn.inbufused = tail.length
  held : tail.map some <+: conn.inbuf
  terminated : begun → tail.map some ++ [some 0] <+: conn.inbuf
  allocated : conn.inbuf.length = conn.inbuflen
  stepped : simpleBufInc ∣ conn.inbuflen
  fits : conn.inbuflen ≤ intMax

def longestTail : Nat := 2 ^ 31 - 2 * simpleBufInc

variable {conn : SipConnection} {tail data : Bytes} {begun : Prop}

variable {behind : Block UInt8} {sip : SipText} {later : List SipText}

theorem growInbuf_room (holds : Holds conn tail begun) (short : tail.length ≤ longestTail) :
    ∃ grown, growInbuf conn = some grown ∧ Holds grown tail begun ∧
      tail.length + simpleBufInc ≤ grown.inbuflen ∧ grown.processed = conn.processed ∧
      grown.listed = conn.listed := by
  have enough : tail.length ≤ conn.inbuflen := by
    have length := holds.held.length_le
    rw [length_map, holds.allocated] at length
    exact length
  rw [growInbuf]
  by_cases small : conn.inbuflen < conn.inbufused + simpleBufInc
  · have bound : ¬ intMax < conn.inbuflen + simpleBufInc := by
      have used := holds.used
      obtain ⟨blocks, size⟩ := holds.stepped
      simp only [simpleBufInc, intMax, longestTail] at *
      omega
    rw [if_pos small]
    dsimp only
    rw [if_neg bound]
    refine ⟨_, rfl, ?_, Nat.add_le_add_right enough _, rfl, rfl⟩
    constructor
    · exact holds.used
    · apply Block.prefix_realloc holds.held
      rw [length_map]
      exact Nat.le_trans enough (Nat.le_add_right _ _)
    · intro started
      have whole := (holds.terminated started).length_le
      rw [holds.allocated] at whole
      exact Block.prefix_realloc (holds.terminated started)
        (Nat.le_trans whole (Nat.le_add_right _ _))
    · exact Block.realloc_length _ _
    · exact Nat.dvd_add holds.stepped (Nat.dvd_refl _)
    · exact Nat.le_of_not_lt bound
  · rw [if_neg small]
    refine ⟨conn, rfl, holds, ?_, rfl, rfl⟩
    rw [← holds.used]
    exact Nat.le_of_not_lt small

def StartsSolid (buffer : Bytes) : Prop := ∀ byte, buffer.head? = some byte → isBreak byte = false

def FewBreaks (buffer : Bytes) : Prop := (∀ byte ∈ buffer, isBreak byte = true) ∧ buffer.length < 4

theorem removeBreaks_solid (cells : conn.inbuf = data.map some ++ some 0 :: behind)
    (solid : StartsSolid data) : removeBreaks conn = some conn := by
  have none : countBreaks conn.inbuf = some 0 := by
    rw [cells]
    cases data with
    | nil => rfl
    | cons byte rest =>
      rw [map_cons, cons_append, countBreaks, solid byte rfl, if_neg Bool.false_ne_true]
  rw [removeBreaks, none, bind_some, if_pos rfl]

theorem countBreaks_all {buffer : Bytes} (breaks : ∀ byte ∈ buffer, isBreak byte = true)
    (behind : Block UInt8) :
    countBreaks (buffer.map some ++ some 0 :: behind) = some buffer.length := by
  induction buffer with
  | nil => rfl
  | cons byte buffer ih =>
    rw [map_cons, cons_append, countBreaks, breaks byte mem_cons_self, if_pos rfl,
      ih fun other member => breaks other (mem_cons_of_mem _ member)]
    rfl

theorem measure_held {bytes : Bytes} (noNul : 0 ∉ bytes)
    (held : bytes.map some ++ [some 0] <+: conn.inbuf) :
    measure conn = some { conn with inbufused := bytes.length } := by
  rw [measure, blockString_of_prefix held, cString_clean noNul, map_some]

theorem holds_string {bytes : Bytes} (noNul : 0 ∉ bytes) :
    blockString (bytes.map some ++ some 0 :: behind) = some bytes := by
  rw [@ blockString_of_prefix _ bytes, cString_clean noNul]
  exact ⟨behind, by rw [append_assoc]; rfl⟩

theorem break_solid {byte : UInt8} (isBreak' : isBreak byte = true) : byte ≠ 0 := by
  rintro rfl
  cases isBreak'

theorem processInput_breaks (cells : conn.inbuf = data.map some ++ some 0 :: behind)
    (used : conn.inbufused = data.length) (few : FewBreaks data) :
    processInput conn = some conn := by
  obtain ⟨breaks, short⟩ := few
  have noNul : 0 ∉ data := fun member => break_solid (breaks 0 member) rfl
  have removed : removeBreaks conn = some conn := by
    have counted : countBreaks conn.inbuf = some data.length := by
      rw [cells]
      exact countBreaks_all breaks behind
    rw [removeBreaks, counted, bind_some]
    split
    · rfl
    · have moved : memmove conn.inbuf data.length 0 = some conn.inbuf := by
        have inside : data.length + 0 ≤ conn.inbuf.length := by
          rw [cells, length_append, length_map]
          exact Nat.le_add_right _ _
        rw [memmove, Block.load_some _ inside, bind_some, take_zero,
          Block.store_some _ (Nat.zero_le _)]
        rfl
      rw [if_neg (by omega), used, Nat.sub_self, moved, bind_some,
        measure_held noNul ⟨behind, by rw [cells, append_assoc]; rfl⟩, ← used]
  have absent : strstr blankLine data = none := by
    cases found : strstr blankLine data with
    | none => rfl
    | some offset =>
      have bound := strstr_bound found
      change offset + 4 ≤ data.length at bound
      omega
  rw [processInput, removed, bind_some, processMessage, cells, holds_string noNul,
    bind_some, absent]

/-! ### A message -/

theorem SipText.text_noNul (formed : sip.WellFormed) : 0 ∉ sip.head := by
  intro member
  obtain ⟨line, among, inside⟩ := mem_flatMap.mp member
  have clean : Clean line := by
    obtain rfl | later := mem_cons.mp among
    · exact formed.startClean
    · obtain ⟨header, one, here⟩ := mem_flatMap.mp later
      exact (formed.headers header one).clean line here
  obtain here | ending := mem_append.mp inside
  · exact clean.2.2 here
  · exact absurd ending (by decide)

theorem SipText.strstr_text (formed : sip.WellFormed) (rest : Bytes) :
    strstr blankLine (sip.head ++ crlf ++ rest) = some (sip.head.length - 2) := by
  apply strstr_ended
  · intro line member
    obtain ⟨header, one, here⟩ := mem_flatMap.mp member
    have wellFormed := formed.headers header one
    refine ⟨(wellFormed.clean line here).1, ?_⟩
    obtain rfl | fold := mem_cons.mp here
    · exact append_ne_nil_of_right_ne_nil _ (cons_ne_nil _ _)
    · intro empty
      have folded := wellFormed.folded line fold
      rw [empty] at folded
      cases folded
  · exact formed.startClean.1

theorem SipText.head_long (sip : SipText) : 4 ≤ sip.head.length := by
  rw [SipText.head, SipText.lines, ended, flatMap_cons, SipText.startLine]
  simp only [length_append, length_cons]
  change 4 ≤ _ + 2 + _
  omega

theorem processMessage_header (formed : sip.WellFormed) (readable : sip.Readable) {more : Bytes}
    (noNul : 0 ∉ more)
    (cells : conn.inbuf = (sip.head ++ crlf ++ more).map some ++ some 0 :: behind) :
    processMessage conn =
      let msg := { sip.message with body := [] }
      if msg.bodylen ≤ (conn.inbufused : Int) - (sip.head.length + 2 : Nat) then
        takeMessage conn msg (sip.head.length + 2)
      else some conn := by
  have headClean := SipText.text_noNul formed
  have clean : 0 ∉ sip.head ++ crlf ++ more := by
    intro member
    obtain front | back := mem_append.mp member
    · obtain here | ending := mem_append.mp front
      · exact headClean here
      · exact absurd ending (by decide)
    · exact noNul back
  have long := SipText.head_long sip
  have shape : conn.inbuf =
      sip.head.map some ++ some 13 :: (some 10 :: more.map some ++ some 0 :: behind) := by
    rw [cells]
    simp only [crlf, map_append, append_assoc, map_cons, cons_append,
      nil_append]
  have cut := Block.store_cell (sip.head.map some)
    (some 10 :: more.map some ++ some 0 :: behind) (some 13) (some 0)
  rw [← shape, length_map] at cut
  have joined := Block.store_cell (sip.head.map some)
    (some 10 :: more.map some ++ some 0 :: behind) (some 0) (some 13)
  rw [← shape, length_map] at joined
  have offset : sip.head.length - 2 + 2 = sip.head.length := by omega
  rw [processMessage, cells, holds_string clean, bind_some, SipText.strstr_text formed, ← cells]
  dsimp only
  rw [offset, cut, bind_some, holds_string headClean, bind_some,
    sipmsgParseHeader_head formed readable, bind_some]
  dsimp only
  rw [processHeader, joined, bind_some]

theorem takeMessage_taken {front body left : Bytes} {msg : SipMsg} (noNul : 0 ∉ left)
    (cells : conn.inbuf = (front ++ body ++ left).map some ++ some 0 :: behind)
    (allocated : conn.inbuf.length = conn.inbuflen) (length : msg.bodylen = body.length) :
    ∃ inbuf, takeMessage conn msg front.length =
        some { conn with
          inbuf, inbufused := left.length, processed := conn.processed ++ [{ msg with body }] } ∧
      left.map some ++ [some 0] <+: inbuf ∧ inbuf.length = conn.inbuf.length := by
  have shape : conn.inbuf =
      front.map some ++ body.map some ++ (left.map some ++ some 0 :: behind) := by
    rw [cells]
    simp only [map_append, append_assoc]
  have loaded : conn.inbuf.load front.length body.length = some (body.map some) := by
    have inFront := Block.load_front (front.map some) (body.map some)
      (shape ▸ prefix_append (front.map some ++ body.map some) _)
    rw [length_map, length_map] at inFront
    exact inFront
  have size : conn.inbuf.length =
      front.length + body.length + (left.map some ++ some 0 :: behind).length := by
    rw [shape, length_append, length_append, length_map, length_map]
  have moving : conn.inbuf.load (front.length + body.length)
      (conn.inbuflen - (front.length + body.length)) =
        some (left.map some ++ some 0 :: behind) := by
    have inFront := @Block.load_front _ conn.inbuf (front.map some ++ body.map some)
      (left.map some ++ some 0 :: behind) ⟨[], by rw [append_nil, shape]⟩
    rw [length_append, length_map, length_map] at inFront
    rw [← allocated, size, Nat.add_sub_cancel_left]
    exact inFront
  obtain ⟨inbuf, stored, kept, held⟩ := @Block.store_after _ conn.inbuf []
    (left.map some ++ some 0 :: behind) nil_prefix (by
      rw [size, length_nil, Nat.zero_add]
      exact Nat.le_add_left _ _)
  have start : left.map some ++ [some 0] <+: inbuf := by
    apply List.IsPrefix.trans _ held
    exact ⟨behind, by rw [nil_append, append_assoc]; rfl⟩
  refine ⟨inbuf, ?_, start, kept⟩
  have moved : memmove conn.inbuf (front.length + body.length)
      (conn.inbuflen - (front.length + body.length)) = some inbuf := by
    rw [memmove, moving, bind_some]
    exact stored
  have measured : measure { conn with inbuf } =
      some { conn with inbuf, inbufused := left.length } := measure_held noNul start
  rw [takeMessage, length, Int.toNat_natCast, loaded, bind_some, mapM_stored,
    bind_some]
  dsimp only
  rw [moved, bind_some, measured, map_some]

/-! ### One read -/

theorem encode_unbroken (unbroken : sip.breaks = 0) :
    sip.encode = sip.head ++ crlf ++ sip.body := by
  rw [SipText.encode, unbroken]
  rfl

theorem encode_length (sip : SipText) : 6 ≤ sip.encode.length := by
  have long := SipText.head_long sip
  rw [SipText.encode, SipText.text]
  simp only [length_append]
  change 6 ≤ _ + (_ + 2 + _)
  omega

theorem stream_noNul {messages : List SipText} (formed : ∀ sip ∈ messages, sip.WellFormed) :
    0 ∉ stream SipText.encode messages := by
  intro member
  obtain ⟨sip, among, inside⟩ := mem_flatMap.mp member
  obtain breaks | text := mem_append.mp inside
  · obtain ⟨piece, repeated, here⟩ := mem_flatten.mp breaks
    rw [(mem_replicate.mp repeated).2] at here
    exact absurd here (by decide)
  · obtain front | body := mem_append.mp text
    · obtain here | ending := mem_append.mp front
      · exact SipText.text_noNul (formed sip among) here
      · exact absurd ending (by decide)
    · exact (formed sip among).noNul body

theorem waiting (incomplete : complete SipText.encode later data = []) :
    unconsumed SipText.encode later data = data := by
  cases later with
  | nil => rfl
  | cons sip later =>
    rw [complete] at incomplete
    split at incomplete
    · cases incomplete
    · rename_i short
      exact if_neg short

theorem incomplete_short (short : data.length < 6) : complete SipText.encode later data = [] := by
  cases later with
  | nil => rfl
  | cons sip later =>
    have long := encode_length sip
    exact if_neg (by omega)

theorem unbroken_of_solid (some' : data ≠ []) (solid : StartsSolid data)
    (arrived : data <+: stream SipText.encode (sip :: later)) : sip.breaks = 0 := by
  by_contra broken
  obtain ⟨breaks, more⟩ := Nat.exists_eq_succ_of_ne_zero broken
  obtain ⟨byte, rest, filled⟩ := exists_cons_of_ne_nil some'
  have starts : ∃ behind, stream SipText.encode (sip :: later) = 13 :: behind := by
    rw [stream_cons, SipText.encode, more, replicate_succ, flatten_cons]
    exact ⟨_, rfl⟩
  obtain ⟨behind, start⟩ := starts
  rw [start, filled] at arrived
  have return' := (cons_prefix_cons.mp arrived).1
  have notBreak := solid byte (by rw [filled]; rfl)
  rw [return'] at notBreak
  cases notBreak

theorem processMessage_framed (formed : ∀ sip ∈ later, sip.WellFormed)
    (readable : ∀ sip ∈ later, sip.Readable) (arrived : data <+: stream SipText.encode later)
    (some' : data ≠ []) (solid : StartsSolid data)
    (single : (complete SipText.encode later data).length ≤ 1)
    (cells : conn.inbuf = data.map some ++ some 0 :: behind) (used : conn.inbufused = data.length)
    (allocated : conn.inbuf.length = conn.inbuflen) :
    ∃ inbuf, processMessage conn = some
        { conn with
          inbuf, inbufused := (unconsumed SipText.encode later data).length
          processed := conn.processed ++ (complete SipText.encode later data).map SipText.message } ∧
      (unconsumed SipText.encode later data).map some ++ [some 0] <+: inbuf ∧
      inbuf.length = conn.inbuf.length := by
  have noNul : 0 ∉ data := fun member => stream_noNul formed (arrived.subset member)
  have terminated : data.map some ++ [some 0] <+: conn.inbuf :=
    ⟨behind, by rw [cells, append_assoc]; rfl⟩
  -- where nothing is complete, the connection stays as it is
  have stays (incomplete : complete SipText.encode later data = [])
      (kept : processMessage conn = some conn) : ∃ inbuf, processMessage conn = some
        { conn with
          inbuf, inbufused := (unconsumed SipText.encode later data).length
          processed := conn.processed ++ (complete SipText.encode later data).map SipText.message } ∧
      (unconsumed SipText.encode later data).map some ++ [some 0] <+: inbuf ∧
      inbuf.length = conn.inbuf.length := by
    rw [waiting incomplete, incomplete, kept, ← used]
    exact ⟨conn.inbuf, by rw [map_nil, append_nil], terminated, rfl⟩
  cases later with
  | nil => exact absurd (prefix_nil.mp arrived) some'
  | cons sip later =>
    obtain ⟨formedHere, -⟩ := forall_mem_cons.mp formed
    obtain ⟨readableHere, -⟩ := forall_mem_cons.mp readable
    have unbroken := unbroken_of_solid some' solid arrived
    have long := SipText.head_long sip
    have encoded : sip.encode.length = sip.head.length + 2 + sip.body.length := by
      rw [encode_unbroken unbroken, length_append, length_append]
      rfl
    have whole : stream SipText.encode (sip :: later) =
        sip.head ++ crlf ++ (sip.body ++ stream SipText.encode later) := by
      rw [stream_cons, encode_unbroken unbroken, append_assoc]
    by_cases headed : sip.head.length + 2 ≤ data.length
    · -- the header block is complete
      have front : sip.head ++ crlf <+: data := by
        apply prefix_of_prefix_length_le _ arrived
        · rw [length_append]
          exact headed
        · rw [whole]
          exact prefix_append _ _
      obtain ⟨more, split⟩ := front
      have moreClean : 0 ∉ more := fun member => noNul (by
        rw [← split]
        exact mem_append_right _ member)
      rw [← split] at cells
      have read := processMessage_header formedHere readableHere moreClean cells
      have size : data.length = sip.head.length + 2 + more.length := by
        rw [← split, length_append, length_append]
        rfl
      have bodylen : sip.message.bodylen = sip.body.length := rfl
      dsimp only at read
      by_cases bodied : sip.encode.length ≤ data.length
      · obtain ⟨left, taken, arrivedLeft⟩ := arrived_whole arrived bodied
        have moreSplit : more = sip.body ++ left := by
          have same : sip.head ++ crlf ++ more = sip.head ++ crlf ++ (sip.body ++ left) := by
            rw [split, taken, encode_unbroken unbroken, append_assoc (sip.head ++ crlf)]
          exact append_cancel_left same
        rw [complete, if_pos bodied] at single ⊢
        rw [unconsumed, if_pos bodied]
        have dropped : data.drop sip.encode.length = left := by
          rw [taken, drop_left' rfl]
        rw [dropped] at single ⊢
        have nothing : complete SipText.encode later left = [] :=
          length_eq_zero_iff.mp (Nat.le_zero.mp (Nat.le_of_succ_le_succ single))
        rw [waiting nothing, nothing]
        rw [moreSplit, ← append_assoc] at cells
        have leftClean : 0 ∉ left := fun member => noNul (by
          rw [taken]
          exact mem_append_right _ member)
        obtain ⟨inbuf, done, kept, sized⟩ := takeMessage_taken leftClean cells allocated
          (show ({ sip.message with body := [] } : SipMsg).bodylen = sip.body.length from bodylen)
        refine ⟨inbuf, ?_, kept, sized⟩
        rw [length_append] at done
        rw [read, bodylen, used, size, if_pos (by rw [moreSplit, length_append]; omega)]
        exact done
      · apply stays
        · exact if_neg bodied
        · rw [read, bodylen, used, if_neg (by omega)]
    · apply stays
      · exact if_neg (by omega)
      · have absent : strstr blankLine data = none := by
          have found := SipText.strstr_text formedHere
            (sip.body ++ stream SipText.encode later)
          rw [← whole] at found
          obtain ⟨rest, same⟩ := arrived
          have cut := strstr_take_iff found data.length
          rw [← same, take_left' rfl, if_neg] at cut
          · exact cut
          · change ¬ sip.head.length - 2 + 4 ≤ data.length
            omega
        rw [processMessage, cells, holds_string noNul, bind_some, absent]

theorem processInput_framed {later : List SipText}
    (formed : ∀ sip ∈ later, sip.WellFormed) (readable : ∀ sip ∈ later, sip.Readable)
    (arrived : data <+: stream SipText.encode later) (some' : data ≠ [])
    (start : StartsSolid data ∨ FewBreaks data)
    (single : (complete SipText.encode later data).length ≤ 1)
    (held : data.map some ++ [some 0] <+: conn.inbuf) (used : conn.inbufused = data.length)
    (allocated : conn.inbuf.length = conn.inbuflen) :
    ∃ inbuf, processInput conn = some
        { conn with
          inbuf, inbufused := (unconsumed SipText.encode later data).length
          processed := conn.processed ++ (complete SipText.encode later data).map SipText.message } ∧
      (unconsumed SipText.encode later data).map some ++ [some 0] <+: inbuf ∧
      inbuf.length = conn.inbuf.length := by
  obtain ⟨behind, cells⟩ := held
  rw [append_assoc] at cells
  obtain solid | few := start
  · rw [processInput, removeBreaks_solid cells.symm solid, bind_some]
    exact processMessage_framed formed readable arrived some' solid single cells.symm used allocated
  · have nothing : complete SipText.encode later data = [] :=
      incomplete_short (Nat.lt_of_lt_of_le few.2 (by decide))
    rw [waiting nothing, nothing, processInput_breaks cells.symm used few, ← used]
    exact ⟨conn.inbuf, by rw [map_nil, append_nil], ⟨behind, by
      rw [append_assoc, cells]⟩, rfl⟩

/-! ### Runs -/

def Reading.bytes : Reading → Bytes
  | .data bytes _ _ => bytes
  | .again => []
  | .failed => []

def Reading.Succeeds : Reading → Prop
  | .data _ _ _ => True
  | .again => True
  | .failed => False

def received (readings : List Reading) : Bytes := readings.flatMap Reading.bytes

/-- The complete messages were processed in order, and the buffer holds what is behind them. -/
structure Framed (messages : List SipText) (past : Bytes) (conn : SipConnection) : Prop where
  listed : conn.listed = true
  processed : conn.processed = (complete SipText.encode messages past).map SipText.message
  holds : Holds conn (unconsumed SipText.encode messages past) (past ≠ [])

/-- A read that completes one message at most, with no line breaks in front of the first. -/
structure Admits (messages : List SipText) (past data : Bytes) : Prop where
  start : StartsSolid (unconsumed SipText.encode messages past ++ data) ∨
    FewBreaks (unconsumed SipText.encode messages past ++ data)
  single : (complete SipText.encode messages (past ++ data)).length ≤
    (complete SipText.encode messages past).length + 1
  short : (unconsumed SipText.encode messages past).length ≤ longestTail

theorem start_framed (messages : List SipText) : Framed messages [] SipConnection.start := by
  have nothing : complete SipText.encode messages [] = [] := incomplete_short (by decide)
  constructor
  · rfl
  · rw [nothing]
    rfl
  · rw [waiting nothing]
    exact
      { used := rfl
        held := nil_prefix
        terminated := fun impossible => absurd rfl impossible
        allocated := rfl
        stepped := Nat.dvd_zero _
        fits := Nat.zero_le _ }

variable {messages : List SipText} {past : Bytes}

theorem Framed.again (framed : Framed messages past conn)
    (short : (unconsumed SipText.encode messages past).length ≤ longestTail) :
    ∃ next, simpleInputCb conn .again = some next ∧ Framed messages past next := by
  obtain ⟨grown, growth, holds, -, processed, listed⟩ := growInbuf_room framed.holds short
  refine ⟨grown, ?_, listed.trans framed.listed, processed.trans framed.processed, holds⟩
  rw [simpleInputCb, if_pos framed.listed, growth]
  rfl

theorem Framed.read (formed : ∀ sip ∈ messages, sip.WellFormed)
    (readable : ∀ sip ∈ messages, sip.Readable) (framed : Framed messages past conn)
    (arrived : past ++ data <+: stream SipText.encode messages) (some' : data ≠ [])
    (small : data.length ≤ simpleBufInc - 1) (admits : Admits messages past data) :
    ∃ next, simpleInputCb conn (.data data some' small) = some next ∧
      Framed messages (past ++ data) next := by
  obtain ⟨grown, growth, holds, room, processed, listed⟩ :=
    growInbuf_room framed.holds admits.short
  obtain ⟨later, split, arrivedLater, completed, kept⟩ := arrived_more arrived
  have start := admits.start
  have single := admits.single
  have processedBefore := processed.trans framed.processed
  rw [completed, length_append] at single
  generalize unconsumed SipText.encode messages past = tail at *
  generalize complete SipText.encode messages past = before at *
  have space : tail.length + data.length < grown.inbuf.length := by
    rw [holds.allocated]
    simp only [simpleBufInc] at room small
    omega
  obtain ⟨first, firstStored, firstLength, firstHeld⟩ :=
    @Block.store_after _ _ _ (data.map some) holds.held (by
      rw [length_map, length_map]
      exact Nat.le_of_lt space)
  rw [← map_append] at firstHeld
  rw [length_map, ← holds.used] at firstStored
  obtain ⟨second, secondStored, secondLength, secondHeld⟩ :=
    @Block.store_after _ _ _ [some 0] firstHeld (by
      rw [length_map, length_append, firstLength]
      exact space)
  rw [length_map, length_append, ← holds.used] at secondStored
  have laterFormed : ∀ sip ∈ later, sip.WellFormed := fun sip member =>
    formed sip (by
      rw [split]
      exact mem_append_right _ member)
  have laterReadable : ∀ sip ∈ later, sip.Readable := fun sip member =>
    readable sip (by
      rw [split]
      exact mem_append_right _ member)
  have allocated : second.length = grown.inbuflen := by
    rw [secondLength, firstLength, holds.allocated]
  have filled : grown.inbufused + data.length = (tail ++ data).length := by
    rw [holds.used, length_append]
  obtain ⟨inbuf, done, held, length⟩ := @processInput_framed
    { grown with inbuf := second, inbufused := grown.inbufused + data.length } _ later laterFormed
    laterReadable arrivedLater (append_ne_nil_of_right_ne_nil tail some') start
    (by omega) secondHeld filled allocated
  have stepped : simpleInputCb conn (.data data some' small) = processInput
      { grown with inbuf := second, inbufused := grown.inbufused + data.length } := by
    rw [simpleInputCb, if_pos framed.listed, growth, bind_some]
    dsimp only
    rw [receive, firstStored, bind_some]
    dsimp only
    rw [secondStored, bind_some]
  refine ⟨_, stepped.trans done, ?_⟩
  constructor
  · exact listed.trans framed.listed
  · rw [completed, map_append, ← processedBefore]
  · rw [kept]
    exact
      { used := rfl
        held := (prefix_append _ _).trans held
        terminated := fun _ => held
        allocated := length.trans allocated
        stepped := holds.stepped
        fits := holds.fits }

/-- After every read of a run: the messages received so far were processed, and the buffer holds
the rest. -/
theorem input_run {readings done : List Reading} (formed : ∀ sip ∈ messages, sip.WellFormed)
    (readable : ∀ sip ∈ messages, sip.Readable)
    (sent : received readings <+: stream SipText.encode messages)
    (succeed : ∀ reading ∈ readings, reading.Succeeds)
    (admits : ∀ front reading, front ++ [reading] <+: readings →
      Admits messages (received front) reading.bytes)
    (initial : done <+: readings) :
    ∃ last, PartialRun.run simpleInputCb SipConnection.start done = some last ∧
      Framed messages (received done) last := by
  induction done using List.reverseRecOn with
  | nil => exact ⟨_, rfl, start_framed messages⟩
  | append_singleton front reading ih =>
    obtain ⟨conn, ran, framed⟩ := ih ((prefix_append _ _).trans initial)
    have admitted := admits front reading initial
    have joined : received (front ++ [reading]) = received front ++ reading.bytes := by
      rw [received, flatMap_append, flatMap_singleton]
      rfl
    have arrived : received front ++ reading.bytes <+: stream SipText.encode messages := by
      rw [← joined]
      obtain ⟨rest, rfl⟩ := initial
      rw [received, flatMap_append] at sent
      exact (prefix_append _ _).trans sent
    have stepped : ∃ next, simpleInputCb conn reading = some next ∧
        Framed messages (received front ++ reading.bytes) next := by
      cases reading with
      | data bytes some' small =>
        exact framed.read formed readable arrived some' small admitted
      | again =>
        change ∃ next, _ ∧ Framed messages (received front ++ []) next
        rw [append_nil]
        exact framed.again admitted.short
      | failed =>
        have impossible := succeed .failed (initial.subset (mem_append_right _
          mem_cons_self))
        exact impossible.elim
    obtain ⟨next, step, here⟩ := stepped
    rw [joined, PartialRun.run_append, ran, bind_some, PartialRun.run_cons, step]
    exact ⟨next, rfl, here⟩

def options : SipText :=
  { breaks := 0, first := ascii "OPTIONS", second := ascii "sip:a", third := ascii "SIP/2.0"
    headers := [{ name := ascii "Content-Length", text := ascii " 2", folds := [] }]
    body := ascii "hi" }

theorem options_wellFormed : options.WellFormed := by
  constructor
  · decide
  · decide
  · unfold Clean
    decide
  · intro header member
    rw [mem_singleton.mp member]
    constructor
    · decide
    · decide
    · decide
    · unfold Clean
      decide
    · decide
  · decide
  · change strtol (ascii " 2") = 2
    decide

theorem options_readable : options.Readable := by
  constructor
  · decide
  · decide
  · intro _ text found
    cases found

theorem input_run_options :
    ∃ last, PartialRun.run simpleInputCb SipConnection.start
        [.data options.encode (by decide) (by decide)] = some last ∧
      Framed [options] (received [.data options.encode (by decide) (by decide)]) last := by
  apply input_run (forall_mem_singleton.mpr options_wellFormed)
    (forall_mem_singleton.mpr options_readable) _ _ _ (prefix_refl _)
  · exact ⟨[], by decide⟩
  · exact forall_mem_singleton.mpr trivial
  · intro front reading initial
    have nothing : front = [] := by
      have length := initial.length_le
      rw [length_append] at length
      exact length_eq_zero_iff.mp (Nat.le_zero.mp (Nat.le_of_succ_le_succ length))
    subst nothing
    obtain ⟨same, -⟩ := cons_prefix_cons.mp initial
    subst same
    constructor
    · apply Or.inl
      intro byte first
      cases first
      rfl
    · decide
    · decide

/-- Line breaks in front of a message: as many bytes of it are left in the buffer. -/
theorem lineBreak_unframed :
    ∃ last, PartialRun.run simpleInputCb SipConnection.start
        [.data ({ options with breaks := 1 } : SipText).encode (by decide) (by decide)] = some last ∧
      ¬ Framed [{ options with breaks := 1 }]
        (received
          [.data ({ options with breaks := 1 } : SipText).encode (by decide) (by decide)]) last := by
  have left : (PartialRun.run simpleInputCb SipConnection.start
      [.data ({ options with breaks := 1 } : SipText).encode (by decide) (by decide)]).map
        SipConnection.inbufused = some 2 := by decide +kernel
  obtain ⟨last, ran, used⟩ := map_eq_some_iff.mp left
  refine ⟨last, ran, fun framed => ?_⟩
  have nothing := framed.holds.used
  rw [used] at nothing
  exact absurd nothing (by decide)

end Purple.Simple
