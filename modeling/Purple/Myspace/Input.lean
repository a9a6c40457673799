/-
Reading from a MySpaceIM server, from myspace.c and session.c of the MySpace plugin.

The messages that `msim_preprocess_incoming` is given are recorded.  It does not touch the
receive buffer.  A read or a store outside the buffer, or a size that does not fit the
`guint` in which the session keeps it, makes the operation `none`.

Between two rounds of the loop the buffer holds the bytes that are left with a NUL behind
them.  A round takes what stands in front of the first end marker, and the loop ends
without a marker, or at a text that does not parse.
-/

import Purple.Myspace.MessageFraming

namespace Purple.Myspace

open CString Memory

def readBufSize : Nat := 15 * 1024

/-- One more than what a `guint` holds. -/
def guintLimit : Nat := 2 ^ 32

/-- The part of a session that reads; `lost` counts the errors it has reported. -/
structure MsimSession where
  rxbuf : Block UInt8
  rxoff : Nat
  rxsize : Nat
  processed : List MsimMessage
  lost : Nat

def MsimSession.new : MsimSession :=
  { rxbuf := List.replicate readBufSize (some 0)
    rxoff := 0
    rxsize := readBufSize
    processed := []
    lost := 0 }

def connectionError (session : MsimSession) : MsimSession :=
  { session with lost := session.lost + 1 }

/-- What one `recv` returns. -/
inductive Reading where
  | data (bytes : Bytes)
  | again
  | failed
  | closed

/-- The message in front of `fin` was processed: what is behind its end marker moves to
the front. -/
def moveRemaining (session : MsimSession) (fin : Nat) (raw : Bytes) : Option MsimSession :=
  let taken := raw.length + finalString.length
  let behind := fin + finalString.length
  if session.rxoff < taken then none
  else
    ((session.rxbuf.load behind (session.rxsize - behind)).bind fun remaining =>
      session.rxbuf.store 0 remaining).map
        fun rxbuf => { session with rxbuf, rxoff := session.rxoff - taken }

def finalRound (session : MsimSession) : Option (Bool × MsimSession) :=
  (blockString session.rxbuf).bind fun string =>
    match strstr finalString string with
    | none => some (false, session)
    | some fin =>
      (session.rxbuf.store fin [some 0]).bind fun rxbuf =>
        (blockString rxbuf).bind fun raw =>
          match msimParse raw with
          | [] => some (false, connectionError { session with rxbuf })
          | element :: msg =>
            let processed := session.processed ++ [element :: msg]
            (moveRemaining { session with rxbuf, processed } fin raw).map
              fun session => (true, session)

/-- The loop.  Every round before the last takes an end marker at least. -/
def finalRounds : Nat → MsimSession → Option MsimSession
  | 0, _ => none
  | rounds + 1, session =>
    (finalRound session).bind fun round =>
      if round.1 then finalRounds rounds round.2 else some round.2

def receive (session : MsimSession) (bytes : Bytes) : Option MsimSession :=
  ((session.rxbuf.store session.rxoff (bytes.map some)).bind fun rxbuf =>
    rxbuf.store (session.rxoff + bytes.length) [some 0]).bind fun rxbuf =>
      let rxoff := session.rxoff + bytes.length
      finalRounds (rxoff + 1) { session with rxbuf, rxoff }

def full (session : MsimSession) : Bool := session.rxsize < session.rxoff + readBufSize

/-- The room that `recv` is told of. -/
def room (session : MsimSession) : Nat := session.rxsize - session.rxoff - 1

def growRxbuf (session : MsimSession) : Option MsimSession :=
  let rxsize := session.rxsize + readBufSize
  if rxsize < guintLimit then
    some { session with rxsize, rxbuf := session.rxbuf.realloc rxsize }
  else none

/-- `msim_input_cb`.  A buffer that has to grow is not read into yet. -/
def msimInputCb (session : MsimSession) (reading : Reading) : Option MsimSession :=
  if full session then growRxbuf session
  else
    match reading with
    | .data bytes => receive session bytes
    | .again => some session
    | .failed => some (connectionError session)
    | .closed => some (connectionError session)

/-- A session with what has arrived on its socket, and what it has read so far. -/
structure Wire where
  session : MsimSession
  socket : Bytes
  received : Bytes

/-- Bytes arrive, or the socket is found readable and `recv` returns at most so many. -/
inductive Event where
  | arrives (bytes : Bytes)
  | readable (most : Nat)

/-- What `recv` takes; nothing is taken while the buffer grows. -/
def taken (wire : Wire) (most : Nat) : Bytes :=
  if full wire.session then [] else wire.socket.take (min most (room wire.session))

def step (wire : Wire) : Event → Option Wire
  | .arrives bytes => some { wire with socket := wire.socket ++ bytes }
  | .readable most =>
    let bytes := taken wire most
    (msimInputCb wire.session (if bytes = [] then .again else .data bytes)).map fun session =>
      { session, socket := wire.socket.drop bytes.length, received := wire.received ++ bytes }

def Wire.start : Wire := { session := MsimSession.new, socket := [], received := [] }

def arrived (events : List Event) : Bytes :=
  events.flatMap fun event => match event with | .arrives bytes => bytes | .readable _ => []

open List Option

structure Keeps (session : MsimSession) (tail : Bytes) : Prop where
  held : tail.map some ++ [some 0] <+: session.rxbuf
  counted : session.rxoff = tail.length
  sized : session.rxbuf.length = session.rxsize

variable {session : MsimSession} {behind : Bytes}

theorem Keeps.inside {tail : Bytes} (keeps : Keeps session tail) :
    tail.length < session.rxsize := by
  have bound := keeps.held.length_le
  rw [length_append, length_map, length_singleton, keeps.sized] at bound
  omega

/-- A text stands in front that no marker ends and that more bytes are counted than. -/
structure Stuck (session : MsimSession) : Prop where
  text : ∃ before, before.map some ++ [some 0] <+: session.rxbuf ∧
    strstr finalString (cString before) = none ∧ before.length < session.rxoff
  sized : session.rxbuf.length = session.rxsize

theorem finalRound_none {tail : Bytes} (held : tail.map some ++ [some 0] <+: session.rxbuf)
    (absent : strstr finalString (cString tail) = none) :
    finalRound session = some (false, session) := by
  rw [finalRound, blockString_of_prefix held, bind_some]
  dsimp only
  rw [absent]

theorem marker_ended {before : Bytes} (keeps : Keeps session (before ++ finalString ++ behind)) :
    ∃ rxbuf, session.rxbuf.store before.length [some 0] = some rxbuf ∧
      rxbuf.length = session.rxsize ∧ before.map some ++ [some 0] <+: rxbuf ∧
      rxbuf.load (before.length + finalString.length)
          (session.rxsize - (before.length + finalString.length)) =
        some (session.rxbuf.drop (before.length + finalString.length)) := by
  have inside := keeps.inside
  have marker : finalString.length = 7 := rfl
  rw [length_append, length_append] at inside
  have front : before.map some <+: session.rxbuf := by
    refine List.IsPrefix.trans ?_ keeps.held
    rw [map_append, map_append, append_assoc, append_assoc]
    exact prefix_append _ _
  obtain ⟨rxbuf, stored, sized, held⟩ := Block.store_after front (show _ + [some 0].length ≤ _ by
    rw [length_map, length_singleton, keeps.sized]
    omega)
  rw [length_map] at stored
  rw [keeps.sized] at sized
  refine ⟨rxbuf, stored, sized, held, ?_⟩
  have room : before.length + finalString.length +
      (session.rxsize - (before.length + finalString.length)) ≤ rxbuf.length := by omega
  rw [Block.load_some _ room, take_of_length_le (by rw [List.length_drop]; omega)]
  congr 1
  apply ext_getElem?
  intro index
  rw [getElem?_drop, getElem?_drop, Block.store_outside stored]
  exact Or.inr (by
    rw [length_singleton]
    omega)

theorem remaining_held {before : Bytes} (keeps : Keeps session (before ++ finalString ++ behind)) :
    behind.map some ++ [some 0] <+: session.rxbuf.drop (before.length + finalString.length) := by
  obtain ⟨rest, whole⟩ := keeps.held
  refine ⟨rest, ?_⟩
  have front : before.length + finalString.length =
      ((before ++ finalString).map some).length := by
    rw [length_map, length_append]
  have split : session.rxbuf =
      (before ++ finalString).map some ++ (behind.map some ++ [some 0] ++ rest) := by
    rw [← whole, map_append]
    simp only [append_assoc]
  rw [split, front, drop_left' rfl]

theorem finalRound_message {before : Bytes}
    (keeps : Keeps session (before ++ finalString ++ behind))
    (clean : 0 ∉ before ++ finalString ++ behind)
    (marker : strstr finalString (before ++ finalString ++ behind) = some before.length)
    (parsed : msimParse before ≠ []) :
    ∃ next, finalRound session = some (true, next) ∧ Keeps next behind ∧
      next.processed = session.processed ++ [msimParse before] ∧ next.rxsize = session.rxsize := by
  obtain ⟨rxbuf, stored, sized, ended, loaded⟩ := marker_ended keeps
  have noNul : 0 ∉ before := fun nul =>
    clean (mem_append_left _ (mem_append_left _ nul))
  have counted := keeps.counted
  rw [length_append, length_append] at counted
  have left := remaining_held keeps
  have room : 0 + (session.rxbuf.drop (before.length + finalString.length)).length ≤
      rxbuf.length := by
    rw [List.length_drop, keeps.sized, sized]
    omega
  obtain ⟨moved, stored', length, front⟩ := Block.store_after ( nil_prefix (l := rxbuf)) room
  change rxbuf.store 0 _ = _ at stored'
  obtain ⟨element, msg, message⟩ := exists_cons_of_ne_nil parsed
  rw [finalRound, blockString_of_prefix keeps.held, bind_some, cString_clean clean]
  dsimp only
  rw [marker]
  dsimp only
  rw [stored, bind_some, blockString_of_prefix ended, bind_some,
    cString_clean noNul, message]
  dsimp only
  rw [moveRemaining, if_neg (by dsimp only; omega)]
  dsimp only
  rw [loaded, bind_some, stored']
  refine ⟨_, rfl, ⟨left.trans front, ?_, length.trans sized⟩, rfl, rfl⟩
  dsimp only
  omega

theorem finalRound_stuck {before : Bytes}
    (keeps : Keeps session (before ++ finalString ++ behind))
    (clean : 0 ∉ before ++ finalString ++ behind)
    (marker : strstr finalString (before ++ finalString ++ behind) = some before.length)
    (parsed : msimParse before = []) :
    ∃ next, finalRound session = some (false, next) ∧ Stuck next ∧
      next.processed = session.processed ∧ next.rxsize = session.rxsize := by
  obtain ⟨rxbuf, stored, sized, ended, _⟩ := marker_ended keeps
  have noNul : 0 ∉ before := fun nul =>
    clean (mem_append_left _ (mem_append_left _ nul))
  have counted := keeps.counted
  have seven : finalString.length = 7 := rfl
  rw [length_append, length_append] at counted
  rw [finalRound, blockString_of_prefix keeps.held, bind_some, cString_clean clean]
  dsimp only
  rw [marker]
  dsimp only
  rw [stored, bind_some, blockString_of_prefix ended, bind_some,
    cString_clean noNul, parsed]
  refine ⟨_, rfl, ⟨⟨before, ended, ?_, ?_⟩, sized⟩, rfl, rfl⟩
  · rw [cString_clean noNul]
    cases found : strstr finalString before with
    | none => rfl
    | some offset =>
      have again := strstr_append found (finalString ++ behind)
      rw [← append_assoc, marker] at again
      have bound := strstr_bound found
      cases again
      omega
  · change before.length < session.rxoff
    omega

end Purple.Myspace
