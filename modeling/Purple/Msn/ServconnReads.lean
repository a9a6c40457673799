/-
The commands and payloads of a stream, however it is cut into reads.

A stream is the list of what it delivers.  What is complete in the bytes received
so far, and what is left over, do not depend on the reads; the connection agrees
with both after every read.
-/

import Purple.Framing
import Purple.Msn.Servconn
import Purple.PartialRun

namespace Purple.Msn

open List Option Memory CString Framing

def Delivered.bytes : Delivered → Bytes
  | .command text => text ++ crlf
  | .payload bytes => bytes

structure Line (text : Bytes) : Prop where
  noNul : 0 ∉ text
  noCrlf : ¬crlf <:+: text

/-- The events may come after `prior`, when a payload of `awaited` bytes is due: every
command is a line, and the payload that it announces follows it. -/
def Follows (handlers : Handlers) : List Delivered → Nat → List Delivered → Prop
  | _, _, [] => True
  | prior, awaited, .command text :: later =>
    awaited = 0 ∧ Line text ∧ Follows handlers (prior ++ [.command text])
      (handlers prior (msnCommandFromString text)) later
  | prior, awaited, .payload bytes :: later =>
    awaited ≠ 0 ∧ bytes.length = awaited ∧ Follows handlers (prior ++ [.payload bytes]) 0 later

/-- The connection has delivered what is complete and counts what is left. -/
structure Faithful (events : List Delivered) (received : Bytes) (conn : MsnServConn) : Prop where
  delivered : conn.delivered = complete Delivered.bytes events received
  counted : conn.rxLen = (unconsumed Delivered.bytes events received).length

variable {conn last : MsnServConn} {front : Block UInt8} {rest : Bytes} {handlers : Handlers}
  {event : Delivered} {later events : List Delivered} {reads : List ReadBuf}

def Showable (text : Bytes) : Prop := text ≠ [] ∧ text ≠ [10]

theorem showDebugCmd_some_iff (text : Bytes) :
    (∃ shown, showDebugCmd text = some shown) ↔ Showable text := by
  unfold showDebugCmd Showable
  dsimp only
  cases text with
  | nil =>
    constructor
    · intro ⟨shown, impossible⟩
      cases impossible
    · exact fun showable => absurd rfl showable.1
  | cons byte text =>
    have positive : (byte :: text).length ≠ 0 := Nat.succ_ne_zero _
    rw [if_neg positive]
    by_cases feed : (byte :: text)[(byte :: text).length - 1]? ≠ some 10
    · rw [if_pos feed]
      refine ⟨fun _ => ⟨cons_ne_nil _ _, fun single => ?_⟩, fun _ => ⟨_, rfl⟩⟩
      rw [single] at feed
      exact feed rfl
    · rw [if_neg feed]
      rw [not_not] at feed
      cases text with
      | nil =>
        have isFeed : byte = 10 := Option.some.inj feed
        rw [isFeed]
        constructor
        · intro ⟨shown, impossible⟩
          cases impossible
        · exact fun showable => absurd rfl showable.2
      | cons next text =>
        have two : (byte :: next :: text).length ≠ 1 := by
          rw [length_cons, length_cons]
          omega
        rw [if_neg two]
        refine ⟨fun _ => ⟨cons_ne_nil _ _, fun single => ?_⟩, fun _ => ?_⟩
        · exact absurd (List.cons.inj single).2 (cons_ne_nil _ _)
        · by_cases shown : (byte :: next :: text)[(byte :: next :: text).length - 2]? = some 13
          · exact ⟨_, if_pos shown⟩
          · exact ⟨_, if_neg shown⟩

/-! ### One round -/

/-- `rest` is left over, and the events are still to come. -/
structure Reading (handlers : Handlers) (events : List Delivered) (rest : Bytes)
    (conn : MsnServConn) : Prop where
  follows : Follows handlers conn.delivered conn.payloadLen events
  arrived : rest <+: stream Delivered.bytes events
  sized : conn.rxLen = rest.length

/-- The buffer from the pointer on: what is left over, with a NUL behind it. -/
def Holds (conn : MsnServConn) (front : Block UInt8) (rest : Bytes) : Prop :=
  conn.rxBuf = front ++ (rest ++ [0]).map some

theorem holds_string (holds : Holds conn front rest) :
    blockString (conn.rxBuf.drop front.length) = some (cString rest) := by
  rw [holds, drop_left' rfl]
  apply blockString_of_prefix
  rw [map_append]
  exact prefix_refl _

structure Consumed (event : Delivered) (awaited : Nat) (rest : Bytes) (front : Block UInt8)
    (conn next : MsnServConn) : Prop where
  delivered : next.delivered = conn.delivered ++ [event]
  payloadLen : next.payloadLen = awaited
  counted : next.rxLen = conn.rxLen - event.bytes.length
  left : ∃ further, further.length = front.length + event.bytes.length ∧ Holds next further rest

theorem commandRound_whole {handlers : Handlers} {text rest : Bytes} {conn : MsnServConn}
    {front : Block UInt8} (line : Line text) (showable : Showable text)
    (holds : Holds conn front (text ++ crlf ++ rest)) :
    ∃ next, commandRound handlers front.length conn =
        some (some ((Delivered.command text).bytes.length, next)) ∧
      Consumed (.command text) (handlers conn.delivered (msnCommandFromString text)) rest front
        conn next := by
  have size : (Delivered.command text).bytes.length = text.length + 2 := length_append
  have string := holds_string holds
  have crlfString : cString (crlf ++ rest) = crlf ++ cString rest := cString_line (by decide) rest
  rw [append_assoc, cString_line line.noNul, crlfString, ← append_assoc] at string
  have found : strstr crlf (text ++ crlf ++ cString rest) = some text.length :=
    strstr_line line.noCrlf _
  -- the block around the carriage return
  have cells : conn.rxBuf =
      (front ++ text.map some) ++ some 13 :: (some 10 :: (rest ++ [0]).map some) := by
    rw [holds, append_assoc, append_assoc, map_append, map_append,
      append_assoc]
    rfl
  have offset : (front ++ text.map some).length = front.length + text.length := by
    rw [length_append, length_map]
  have stored := Block.store_cell (front ++ text.map some) (some 10 :: (rest ++ [0]).map some)
    (some 13) (some 0)
  rw [← cells, offset] at stored
  have terminated : text.map some ++ [some (0 : UInt8)] <+:
      text.map some ++ some 0 :: (some 10 :: (rest ++ [0]).map some) :=
    (prefix_append_right_inj _).mpr ⟨_, rfl⟩
  have command : blockString (((front ++ text.map some) ++
      some (0 : UInt8) :: (some 10 :: (rest ++ [0]).map some)).drop front.length) = some text := by
    have whole := cString_line line.noNul []
    rw [append_nil] at whole
    rw [append_assoc, drop_left' rfl, blockString_of_prefix terminated, whole]
    exact congrArg some (append_nil text)
  obtain ⟨shown, output⟩ := (showDebugCmd_some_iff text).mpr showable
  refine ⟨{ rxBuf := (front ++ text.map some) ++ some 0 :: (some 10 :: (rest ++ [0]).map some)
            rxLen := conn.rxLen - (text.length + 2)
            payloadLen := handlers conn.delivered (msnCommandFromString text)
            delivered := conn.delivered ++ [.command text] }, ?_,
    ⟨rfl, rfl, ?_, (front ++ text.map some) ++ [some 0, some 10], ?_, ?_⟩⟩
  · rw [commandRound, string, bind_some, found, elim_some, stored, bind_some,
      command, bind_some, msnCmdprocProcessCmdText, output, size]
    rfl
  · rw [size]
  · rw [size, length_append, offset, Nat.add_assoc]
    rfl
  · change _ = (front ++ text.map some) ++ [some 0, some 10] ++ (rest ++ [0]).map some
    rw [append_assoc _ [some 0, some 10]]
    rfl

theorem commandRound_part {text later : Bytes} (line : Line text)
    (arrived : rest <+: text ++ crlf ++ later) (part : rest.length < text.length + 2)
    (holds : Holds conn front rest) : commandRound handlers front.length conn = some none := by
  have start : rest <+: text ++ crlf := by
    refine prefix_of_prefix_length_le arrived (prefix_append _ _) ?_
    rw [length_append]
    exact Nat.le_of_lt part
  have found : strstr crlf (text ++ crlf ++ []) = some text.length := strstr_line line.noCrlf _
  rw [append_nil] at found
  have absent : strstr crlf (cString rest) = none := by
    have taken := strstr_take_iff found rest.length
    have short : ¬text.length + crlf.length ≤ rest.length := Nat.not_le_of_lt part
    rw [← prefix_iff_eq_take.mp start, if_neg short] at taken
    exact strstr_none_of_front (cString_initial rest) taken
  rw [commandRound, holds_string holds, bind_some, absent]
  rfl

theorem payloadRound_whole {payload rest : Bytes} {conn : MsnServConn} {front : Block UInt8}
    (due : conn.payloadLen = payload.length) (enough : payload.length ≤ conn.rxLen)
    (holds : Holds conn front (payload ++ rest)) :
    ∃ next, payloadRound front.length conn =
        some (some ((Delivered.payload payload).bytes.length, next)) ∧
      Consumed (.payload payload) 0 rest front conn next := by
  have cells : conn.rxBuf = front ++ payload.map some ++ (rest ++ [0]).map some := by
    rw [holds, append_assoc, map_append, append_assoc]
  have loaded : conn.rxBuf.load front.length payload.length = some (payload.map some) := by
    have inFront := Block.load_front front (payload.map some)
      (cells ▸ prefix_append (front ++ payload.map some) ((rest ++ [0]).map some))
    rw [length_map] at inFront
    exact inFront
  refine ⟨{ conn with
      rxLen := conn.rxLen - payload.length
      payloadLen := 0
      delivered := conn.delivered ++ [.payload payload] }, ?_,
    ⟨rfl, rfl, rfl, front ++ payload.map some, ?_, cells⟩⟩
  · rw [payloadRound, due, if_neg (Nat.not_lt_of_le enough), loaded, bind_some, written,
      mapM_stored]
    rfl
  · rw [length_append, length_map]
    rfl

theorem processRound_whole
    (reading : Reading handlers (event :: later) (event.bytes ++ rest) conn)
    (holds : Holds conn front (event.bytes ++ rest))
    (shown : ∀ text, event = .command text → Showable text) :
    ∃ next awaited, processRound handlers front.length conn =
        some (some (event.bytes.length, next)) ∧
      Consumed event awaited rest front conn next ∧ Reading handlers later rest next := by
  obtain ⟨follows, arrived, sized⟩ := reading
  rw [stream_cons] at arrived
  have behind : rest <+: stream Delivered.bytes later := (prefix_append_right_inj _).mp arrived
  rw [length_append] at sized
  cases event with
  | command text =>
    obtain ⟨idle, line, next⟩ := follows
    obtain ⟨after, round, consumed⟩ :=
      @commandRound_whole handlers text rest conn front line (shown text rfl) holds
    refine ⟨after, _, ?_, consumed, ?_, behind, ?_⟩
    · rw [processRound, if_neg (not_not.mpr idle), round]
    · rw [consumed.delivered, consumed.payloadLen]
      exact next
    · rw [consumed.counted, sized]
      exact Nat.add_sub_cancel_left _ _
  | payload bytes =>
    obtain ⟨due, length, next⟩ := follows
    change conn.rxLen = bytes.length + rest.length at sized
    have enough : bytes.length ≤ conn.rxLen := by
      rw [sized]
      exact Nat.le_add_right _ _
    obtain ⟨after, round, consumed⟩ :=
      @payloadRound_whole bytes rest conn front length.symm enough holds
    refine ⟨after, _, ?_, consumed, ?_, behind, ?_⟩
    · rw [processRound, if_pos due, round]
    · rw [consumed.delivered, consumed.payloadLen]
      exact next
    · rw [consumed.counted, sized]
      exact Nat.add_sub_cancel_left _ _

theorem processRound_part (reading : Reading handlers (event :: later) rest conn)
    (holds : Holds conn front rest) (part : rest.length < event.bytes.length) :
    processRound handlers front.length conn = some none := by
  obtain ⟨follows, arrived, sized⟩ := reading
  rw [stream_cons] at arrived
  cases event with
  | command text =>
    obtain ⟨idle, line, _next⟩ := follows
    have size : (Delivered.command text).bytes.length = text.length + 2 := length_append
    rw [size] at part
    rw [processRound, if_neg (not_not.mpr idle)]
    exact commandRound_part line arrived part holds
  | payload bytes =>
    obtain ⟨due, length, _next⟩ := follows
    change rest.length < bytes.length at part
    rw [processRound, if_pos due, payloadRound, if_pos]
    rw [sized, ← length]
    exact part

theorem bytes_positive (reading : Reading handlers (event :: later) rest conn) :
    0 < event.bytes.length := by
  have follows := reading.follows
  cases event with
  | command text =>
    have size : (Delivered.command text).bytes.length = text.length + 2 := length_append
    rw [size]
    exact Nat.succ_pos _
  | payload bytes =>
    obtain ⟨due, length, _next⟩ := follows
    change 0 < bytes.length
    omega

theorem nothing_arrived (reading : Reading handlers events [] conn) :
    complete Delivered.bytes events [] = [] ∧ unconsumed Delivered.bytes events [] = [] := by
  cases events with
  | nil => exact ⟨rfl, rfl⟩
  | cons event later =>
    have part : ¬event.bytes.length ≤ ([] : Bytes).length :=
      Nat.not_le_of_lt (bytes_positive reading)
    rw [complete, unconsumed, if_neg part, if_neg part]
    exact ⟨rfl, rfl⟩

theorem processRounds_reads {handlers : Handlers} {events : List Delivered} {rest : Bytes}
    {conn : MsnServConn} {front : Block UInt8} (reading : Reading handlers events rest conn)
    (some' : rest ≠ []) (holds : Holds conn front rest)
    (shown : ∀ text, .command text ∈ complete Delivered.bytes events rest → Showable text)
    {rounds : Nat}
    (enough : rest.length < rounds) :
    ∃ cur last later, processRounds handlers rounds front.length conn = some (cur, last) ∧
      last.delivered = conn.delivered ++ complete Delivered.bytes events rest ∧
      events = complete Delivered.bytes events rest ++ later ∧
      Reading handlers later (unconsumed Delivered.bytes events rest) last ∧
      (unconsumed Delivered.bytes events rest ≠ [] →
        ∃ further, further.length = cur ∧
          Holds last further (unconsumed Delivered.bytes events rest)) := by
  induction events generalizing rest conn front rounds with
  | nil => exact absurd (prefix_nil.mp reading.arrived) some'
  | cons event later ih =>
    obtain ⟨fuel, isFuel⟩ : ∃ fuel, rounds = fuel + 1 := ⟨rounds - 1, by omega⟩
    rw [isFuel, processRounds]
    by_cases whole : event.bytes.length ≤ rest.length
    · obtain ⟨behind, same, _front⟩ := arrived_whole reading.arrived whole
      have dropped : rest.drop event.bytes.length = behind := by
        rw [same, drop_left' rfl]
      rw [complete, if_pos whole, dropped] at shown
      rw [complete, unconsumed, if_pos whole, if_pos whole, dropped]
      have positive := bytes_positive reading
      have length := congrArg List.length same
      rw [length_append] at length
      rw [same] at reading holds
      obtain ⟨next, awaited, round, consumed, readingNext⟩ := processRound_whole reading holds
        fun text isCommand => shown text (isCommand ▸ mem_cons_self)
      obtain ⟨further, furtherLength, furtherHolds⟩ := consumed.left
      rw [round, bind_some, elim_some]
      by_cases more : 0 < next.rxLen
      · have nonempty : behind ≠ [] := by
          intro empty
          rw [readingNext.sized, empty] at more
          exact absurd more (Nat.lt_irrefl 0)
        obtain ⟨cur, last, remaining, loop, delivered, split, readingLast, held⟩ :=
          ih readingNext nonempty furtherHolds
            (fun text member => shown text (mem_cons_of_mem _ member))
            (show behind.length < fuel by omega)
        rw [if_pos more, ← furtherLength]
        refine ⟨cur, last, remaining, loop, ?_, ?_, readingLast, held⟩
        · rw [delivered, consumed.delivered, append_assoc]
          rfl
        · rw [cons_append, ← split]
      · have empty : behind = [] := by
          apply length_eq_zero_iff.mp
          rw [← readingNext.sized]
          exact Nat.eq_zero_of_not_pos more
        rw [empty] at readingNext
        have nothing := nothing_arrived readingNext
        rw [if_neg more, empty, nothing.1, nothing.2]
        exact ⟨front.length, next, later, rfl, consumed.delivered, rfl, readingNext,
          fun left => absurd rfl left⟩
    · rw [complete, unconsumed, if_neg whole, if_neg whole,
        processRound_part reading holds (Nat.lt_of_not_le whole)]
      exact ⟨front.length, conn, event :: later, rfl, (append_nil _).symm, rfl, reading,
        fun _ => ⟨front, rfl, holds⟩⟩

/-! ### One read -/

structure Between (handlers : Handlers) (events : List Delivered) (received : Bytes)
    (conn : MsnServConn) : Prop where
  ready : ∃ later tail, events = conn.delivered ++ later ∧
    received = stream Delivered.bytes conn.delivered ++ tail ∧ Reading handlers later tail conn ∧
    complete Delivered.bytes later tail = [] ∧ unconsumed Delivered.bytes later tail = tail ∧
    conn.rxBuf = tail.map some

theorem Between.faithful {received : Bytes} (between : Between handlers events received conn) :
    Faithful events received conn := by
  obtain ⟨later, tail, split, bytes, reading, incomplete, left, _held⟩ := between.ready
  constructor
  · rw [split, bytes, complete_front, incomplete, append_nil]
  · rw [split, bytes, unconsumed_front, left, reading.sized]

theorem stored_behind {tail : Bytes} (held : conn.rxBuf = tail.map some)
    (sized : conn.rxLen = tail.length) (data : Bytes) :
    (conn.rxBuf.realloc (data.length + conn.rxLen + 1)).store conn.rxLen
      ((data ++ [0]).map some) = some ((tail ++ data ++ [0]).map some) := by
  have length : (tail.map (@some UInt8)).length = tail.length := length_map _
  have kept : tail.map some <+: conn.rxBuf.realloc (data.length + conn.rxLen + 1) := by
    rw [held]
    refine Block.prefix_realloc (prefix_refl _) ?_
    rw [length, sized]
    omega
  have room : (tail.map (@some UInt8)).length + ((data ++ [0]).map some).length ≤
      (conn.rxBuf.realloc (data.length + conn.rxLen + 1)).length := by
    rw [Block.realloc_length, length, length_map, length_append, length_singleton,
      sized]
    omega
  obtain ⟨stored, store, size, front⟩ := Block.store_after kept room
  rw [length] at store
  rw [sized, ← sized, sized] at store ⊢
  rw [store]
  have whole : (tail.map some ++ (data ++ [0]).map some) = stored := by
    refine front.eq_of_length ?_
    rw [size, Block.realloc_length, length_append, length, length_map,
      length_append, length_singleton]
    omega
  rw [← whole]
  simp only [map_append, append_assoc]

theorem processData_reads (reading : Reading handlers events rest conn) (some' : rest ≠ [])
    (holds : conn.rxBuf = (rest ++ [0]).map some)
    (shown : ∀ text, .command text ∈ complete Delivered.bytes events rest → Showable text) :
    ∃ next later, msnServconnProcessData handlers conn = some next ∧
      next.delivered = conn.delivered ++ complete Delivered.bytes events rest ∧
      events = complete Delivered.bytes events rest ++ later ∧
      Reading handlers later (unconsumed Delivered.bytes events rest) next ∧
      next.rxBuf = (unconsumed Delivered.bytes events rest).map some := by
  obtain ⟨cur, last, later, loop, delivered, parts, readingLast, held⟩ :=
    @processRounds_reads handlers events rest conn [] reading some' holds shown
      (conn.rxLen + 1) (Nat.lt_succ_of_le (Nat.le_of_eq reading.sized.symm))
  have rounds : msnServconnProcessData handlers conn =
      if 0 < last.rxLen then
        (last.rxBuf.load cur last.rxLen).map fun tail => { last with rxBuf := tail }
      else some { last with rxBuf := [] } := by
    rw [msnServconnProcessData]
    rw [length_nil] at loop
    rw [loop]
    rfl
  by_cases more : 0 < last.rxLen
  · have nonempty : unconsumed Delivered.bytes events rest ≠ [] := by
      intro empty
      rw [readingLast.sized, empty] at more
      exact absurd more (Nat.lt_irrefl 0)
    obtain ⟨further, length, holdsLast⟩ := held nonempty
    rw [Holds, map_append, ← append_assoc] at holdsLast
    have load := Block.load_front further ((unconsumed Delivered.bytes events rest).map some)
      (holdsLast ▸ prefix_append _ ([0].map some))
    rw [length, length_map, ← readingLast.sized] at load
    rw [rounds, if_pos more, load]
    exact ⟨_, later, rfl, delivered, parts,
      ⟨readingLast.follows, readingLast.arrived, readingLast.sized⟩, rfl⟩
  · have empty : unconsumed Delivered.bytes events rest = [] := by
      apply length_eq_zero_iff.mp
      rw [← readingLast.sized]
      exact Nat.eq_zero_of_not_pos more
    rw [rounds, if_neg more, empty]
    rw [empty] at readingLast
    exact ⟨_, later, rfl, delivered, parts,
      ⟨readingLast.follows, readingLast.arrived, readingLast.sized⟩, rfl⟩

theorem readCb_between {received : Bytes} (between : Between handlers events received conn)
    (buf : ReadBuf) (arrived : received ++ buf.data <+: stream Delivered.bytes events)
    (fits : conn.rxLen + buf.data.length ≤ intMax)
    (shown : ∀ text, .command text ∈ complete Delivered.bytes events (received ++ buf.data) →
      Showable text) :
    ∃ next, readCb handlers conn buf = some next ∧
      Between handlers events (received ++ buf.data) next := by
  obtain ⟨later, tail, split, bytes, reading, incomplete, left, held⟩ := between.ready
  have stored := stored_behind held reading.sized buf.data
  rw [split, bytes, append_assoc, complete_front] at shown
  rw [split, bytes, append_assoc, stream_append] at arrived
  have front : tail ++ buf.data <+: stream Delivered.bytes later :=
    (prefix_append_right_inj _).mp arrived
  have now : Reading handlers later (tail ++ buf.data)
      { conn with rxBuf := (tail ++ buf.data ++ [0]).map some
                  rxLen := conn.rxLen + buf.data.length } := by
    refine ⟨reading.follows, front, ?_⟩
    rw [length_append, ← reading.sized]
  have nonempty : tail ++ buf.data ≠ [] := by
    intro empty
    have positive := buf.positive
    rw [(append_eq_nil_iff.mp empty).2] at positive
    exact absurd positive (Nat.lt_irrefl 0)
  obtain ⟨next, remaining, processed, delivered, parts, readingNext, buffer⟩ :=
    processData_reads now nonempty rfl fun text member =>
      shown text (mem_append_right _ member)
  obtain ⟨others, otherParts, consumed, _start, nothing⟩ := arrived_split front
  have same : others = remaining := append_cancel_left (otherParts.symm.trans parts)
  rw [same] at nothing
  obtain ⟨_later, _parts, settled, _start, _nothing⟩ := arrived_split readingNext.arrived
  rw [nothing] at settled
  refine ⟨next, ?_, remaining, unconsumed Delivered.bytes later (tail ++ buf.data), ?_, ?_,
    readingNext, nothing, settled.symm, buffer⟩
  · rw [readCb, if_neg (Nat.not_lt_of_le fits), stored, bind_some, processed]
  · rw [delivered, split, append_assoc, ← parts]
  · rw [delivered, stream_append, bytes, append_assoc, append_assoc]
    exact congrArg _ consumed

theorem processRound_shown {cur : Nat} {next : Nat × MsnServConn}
    (ran : processRound handlers cur conn = some (some next)) :
    ∃ event, next.2.delivered = conn.delivered ++ [event] ∧
      ∀ text, event = .command text → Showable text := by
  by_cases due : conn.payloadLen ≠ 0
  · rw [processRound, if_pos due, payloadRound] at ran
    by_cases short : conn.rxLen < conn.payloadLen
    · rw [if_pos short] at ran
      cases ran
    · rw [if_neg short] at ran
      obtain ⟨payload, _read, same⟩ := map_eq_some_iff.mp ran
      cases same
      exact ⟨.payload payload, rfl, nofun⟩
  · rw [processRound, if_neg due, commandRound] at ran
    obtain ⟨string, _read, found⟩ := bind_eq_some_iff.mp ran
    cases place : strstr crlf string with
    | none =>
      rw [place] at found
      cases found
    | some length =>
      rw [place, elim_some] at found
      obtain ⟨rxBuf, _stored, continued⟩ := bind_eq_some_iff.mp found
      obtain ⟨command, _string, delivered⟩ := bind_eq_some_iff.mp continued
      obtain ⟨after, processed, same⟩ := map_eq_some_iff.mp delivered
      obtain ⟨shown, output, result⟩ := map_eq_some_iff.mp processed
      cases same
      cases result
      refine ⟨.command command, rfl, fun text isCommand => ?_⟩
      cases isCommand
      exact (showDebugCmd_some_iff _).mp ⟨shown, output⟩

theorem processRounds_shown {rounds cur left : Nat}
    (before : ∀ text, .command text ∈ conn.delivered → Showable text)
    (loop : processRounds handlers rounds cur conn = some (left, last)) :
    ∀ text, .command text ∈ last.delivered → Showable text := by
  induction rounds generalizing cur conn with
  | zero => cases loop
  | succ rounds ih =>
    rw [processRounds] at loop
    obtain ⟨round, ran, continued⟩ := bind_eq_some_iff.mp loop
    cases round with
    | none =>
      cases continued
      exact before
    | some next =>
      obtain ⟨event, delivered, shown⟩ := processRound_shown ran
      have after : ∀ text, .command text ∈ next.2.delivered → Showable text := by
        intro text member
        rw [delivered] at member
        cases mem_append.mp member with
        | inl early => exact before text early
        | inr newest => exact shown text (mem_singleton.mp newest).symm
      rw [elim_some] at continued
      by_cases more : 0 < next.2.rxLen
      · rw [if_pos more] at continued
        exact ih after continued
      · rw [if_neg more] at continued
        cases continued
        exact after

theorem readCb_shown {next : MsnServConn} {buf : ReadBuf}
    (before : ∀ text, .command text ∈ conn.delivered → Showable text)
    (read : readCb handlers conn buf = some next) :
    ∀ text, .command text ∈ next.delivered → Showable text := by
  rw [readCb] at read
  by_cases long : intMax < conn.rxLen + buf.data.length
  · rw [if_pos long] at read
    cases read
  · rw [if_neg long] at read
    obtain ⟨rxBuf, _stored, processed⟩ := bind_eq_some_iff.mp read
    rw [msnServconnProcessData] at processed
    obtain ⟨⟨cur, last⟩, loop, copied⟩ := bind_eq_some_iff.mp processed
    have shown : ∀ text, .command text ∈ last.delivered → Showable text := by
      refine processRounds_shown ?_ loop
      exact before
    by_cases more : 0 < last.rxLen
    · rw [if_pos more] at copied
      obtain ⟨tail, _loaded, same⟩ := map_eq_some_iff.mp copied
      cases same
      exact shown
    · rw [if_neg more] at copied
      cases copied
      exact shown

/-! ### Runs -/

def joined (reads : List ReadBuf) : Bytes := reads.flatMap ReadBuf.data

@[simp] theorem joined_append (first second : List ReadBuf) :
    joined (first ++ second) = joined first ++ joined second := flatMap_append

/-- No line that is complete is empty or a lone line feed, and what is left over fits
an `int` together with the next read. -/
structure Harmless (events : List Delivered) (reads : List ReadBuf) : Prop where
  lines : ∀ text, .command text ∈ complete Delivered.bytes events (joined reads) → Showable text
  lengths : ∀ done buf, done ++ [buf] <+: reads →
    (unconsumed Delivered.bytes events (joined done)).length + buf.data.length ≤ intMax

theorem start_between (follows : Follows handlers [] 0 events) :
    Between handlers events [] MsnServConn.start := by
  have reading : Reading handlers events [] MsnServConn.start := ⟨follows, nil_prefix, rfl⟩
  have nothing := nothing_arrived reading
  exact ⟨events, [], rfl, rfl, reading, nothing.1, nothing.2, rfl⟩

theorem run_between (follows : Follows handlers [] 0 events)
    (arrived : joined reads <+: stream Delivered.bytes events) (harmless : Harmless events reads)
    {done : List ReadBuf} (initial : done <+: reads) :
    ∃ last, PartialRun.run (readCb handlers) MsnServConn.start done = some last ∧
      Between handlers events (joined done) last := by
  induction done using List.reverseRecOn with
  | nil => exact ⟨_, rfl, start_between follows⟩
  | append_singleton done buf ih =>
    obtain ⟨middle, ran, between⟩ := ih ((prefix_append done [buf]).trans initial)
    obtain ⟨later, rest⟩ := initial
    have front : joined (done ++ [buf]) <+: joined reads := by
      rw [← rest, joined_append (done ++ [buf])]
      exact prefix_append _ _
    have single : joined [buf] = buf.data := append_nil _
    rw [joined_append, single] at front ⊢
    obtain ⟨next, read, after⟩ := readCb_between between buf (front.trans arrived)
      (by
        rw [between.faithful.counted]
        exact harmless.lengths done buf ⟨later, rest⟩)
      (fun text member => harmless.lines text ((complete_initial front).subset member))
    refine ⟨next, ?_, after⟩
    rw [PartialRun.run_append, ran, bind_some, PartialRun.run_cons, read]
    rfl

theorem run_shown (ran : PartialRun.run (readCb handlers) MsnServConn.start reads = some last) :
    ∀ text, .command text ∈ last.delivered → Showable text := by
  induction reads using List.reverseRecOn generalizing last with
  | nil =>
    cases ran
    exact fun _ absent => absurd absent not_mem_nil
  | append_singleton done buf ih =>
    rw [PartialRun.run_append] at ran
    obtain ⟨middle, before, read⟩ := bind_eq_some_iff.mp ran
    rw [PartialRun.run_cons] at read
    obtain ⟨next, stepped, same⟩ := bind_eq_some_iff.mp read
    cases same
    exact readCb_shown (ih before) stepped

theorem run_fits {done : List ReadBuf} {buf : ReadBuf} {middle : MsnServConn}
    (before : PartialRun.run (readCb handlers) MsnServConn.start done = some middle)
    (ran : PartialRun.run (readCb handlers) MsnServConn.start (done ++ [buf]) = some last) :
    middle.rxLen + buf.data.length ≤ intMax := by
  rw [PartialRun.run_append, before, bind_some, PartialRun.run_cons, readCb] at ran
  by_contra long
  rw [if_pos (Nat.lt_of_not_le long)] at ran
  cases ran

/-- For every stream and every way to cut what has arrived of it into reads: nothing is
read outside the data, what is complete is delivered and the rest counted, after every
read, if and only if no complete line is empty or a lone line feed and every count fits
an `int`. -/
theorem servconn_faithful_iff (handlers : Handlers) (events : List Delivered)
    (follows : Follows handlers [] 0 events) (reads : List ReadBuf)
    (arrived : joined reads <+: stream Delivered.bytes events) :
    (∀ done, done <+: reads →
      ∃ last, PartialRun.run (readCb handlers) MsnServConn.start done = some last ∧
        Faithful events (joined done) last) ↔ Harmless events reads := by
  constructor
  · intro faithful
    constructor
    · intro text member
      obtain ⟨last, ran, agrees⟩ := faithful reads (prefix_refl reads)
      rw [← agrees.delivered] at member
      exact run_shown ran text member
    · intro done buf initial
      obtain ⟨middle, before, agrees⟩ :=
        faithful done ((prefix_append done [buf]).trans initial)
      obtain ⟨last, ran, _agrees⟩ := faithful (done ++ [buf]) initial
      rw [← agrees.counted]
      exact run_fits before ran
  · intro harmless done initial
    obtain ⟨last, ran, between⟩ := run_between follows arrived harmless initial
    exact ⟨last, ran, between.faithful⟩

theorem harmless_of_short (short : (joined reads).length ≤ intMax)
    (lines : ∀ text, .command text ∈ complete Delivered.bytes events (joined reads) →
      Showable text) : Harmless events reads := by
  refine ⟨lines, fun done buf ⟨later, rest⟩ => ?_⟩
  have left := @unconsumed_length_le _ _ Delivered.bytes events (joined done)
  have single : joined [buf] = buf.data := append_nil _
  rw [← rest, joined_append, joined_append, single, length_append, length_append] at short
  omega

/-- A handler for which `MSG` announces three bytes. -/
def msgHandlers : Handlers := fun _ cmd => if cmd.command = ascii "MSG" then 3 else 0

def msgEvents : List Delivered :=
  [.command (ascii "MSG a"), .payload [0, 13, 10], .command (ascii "OUT")]

/-- The first read ends between the carriage return and the line feed. -/
def msgReads : List ReadBuf :=
  [⟨ascii "MSG a\r", by decide, by decide⟩,
    ⟨[10, 0, 13, 10] ++ ascii "OUT\r\n", by decide, by decide⟩]

theorem servconn_faithful_msg :
    ∃ last, PartialRun.run (readCb msgHandlers) MsnServConn.start msgReads = some last ∧
      Faithful msgEvents (joined msgReads) last := by
  have follows : Follows msgHandlers [] 0 msgEvents :=
    ⟨rfl, ⟨by decide, by decide⟩, by decide, rfl, rfl, ⟨by decide, by decide⟩, trivial⟩
  have lines : ∀ text, .command text ∈ complete Delivered.bytes msgEvents (joined msgReads) →
      Showable text := by
    intro text member
    have shown : ∀ event ∈ complete Delivered.bytes msgEvents (joined msgReads),
        event ≠ .command [] ∧ event ≠ .command [10] := by decide
    obtain ⟨notEmpty, notFeed⟩ := shown _ member
    exact ⟨fun same => notEmpty (congrArg _ same), fun same => notFeed (congrArg _ same)⟩
  exact (servconn_faithful_iff msgHandlers msgEvents follows msgReads
    (prefix_iff_eq_take.mpr (by decide))).mpr
    (harmless_of_short (by decide) lines) msgReads (prefix_refl _)

/-- An empty line is read at the byte before it. -/
theorem emptyLine_not_faithful :
    ¬∀ (handlers : Handlers) (events : List Delivered), Follows handlers [] 0 events →
      ∀ reads, joined reads <+: stream Delivered.bytes events → ∀ done, done <+: reads →
        ∃ last, PartialRun.run (readCb handlers) MsnServConn.start done = some last ∧
          Faithful events (joined done) last := by
  intro faithful
  obtain ⟨last, ran, _agrees⟩ := faithful (fun _ _ => 0) [.command []]
    ⟨rfl, ⟨by decide, by decide⟩, trivial⟩ [⟨crlf, by decide, by decide⟩]
    (prefix_refl _) _ (prefix_refl _)
  have crashed : PartialRun.run (readCb fun _ _ => 0) MsnServConn.start
      [⟨crlf, by decide, by decide⟩] = none := rfl
  rw [crashed] at ran
  cases ran

end Purple.Msn
