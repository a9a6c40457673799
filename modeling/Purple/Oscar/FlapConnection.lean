/-
FLAP frames between two connections, from flap_connection.c.

A call of `send` takes as many bytes as the socket has room for, and fails with
EAGAIN where it has no room; a call of `recv` takes as many as are offered to it.
What `parse_flap` does with a frame is not part of the model: the frames it is
given are recorded.  The sender is `none` where a copy leaves the outgoing
buffer or a byte is sent that was never stored.
-/

import Purple.CircBuffer
import Purple.Oscar.ByteStream

namespace Purple.Oscar

open CircBuffer

structure FlapFrame where
  channel : UInt8
  seqnum : UInt16
  data : ByteStream

structure FlapSender where
  bufferOutgoing : PurpleCircBuffer
  seqnumOut : UInt16
  watcherOutgoing : Bool

def flapStart : UInt8 := 0x2a

/-- The sender, and the bytes that `send` has taken. -/
def sendCb (conn : FlapSender) (room : Nat) : Option (FlapSender × Bytes) :=
  let writelen := purpleCircBufferGetMaxRead conn.bufferOutgoing
  if writelen = 0 then some ({ conn with watcherOutgoing := false }, [])
  else if room = 0 then some (conn, [])
  else
    let ret := min room writelen
    ((conn.bufferOutgoing.buffer.load conn.bufferOutgoing.outOffset ret).bind
      fun stored => stored.mapM id).map fun bytes =>
        ({ conn with bufferOutgoing := (purpleCircBufferMarkRead conn.bufferOutgoing ret).2 }, bytes)

def flapConnectionSendByteStream (bs : ByteStream) (conn : FlapSender) (count room : Nat) :
    Option (FlapSender × Bytes) :=
  let count := if bs.bytesLeft < count then bs.bytesLeft else count
  if count = 0 then some (conn, [])
  else
    (purpleCircBufferAppend conn.bufferOutgoing (bs.data.take count)).bind fun bufferOutgoing =>
      if conn.watcherOutgoing then some ({ conn with bufferOutgoing }, [])
      else sendCb { conn with bufferOutgoing, watcherOutgoing := true } room

/-- The stream that `sendframe_flap` fills. -/
def frameStream (fresh : Fresh) (frame : FlapFrame) : ByteStream :=
  let payloadlen := frame.data.offset
  let bs := byteStreamNew fresh (6 + payloadlen)
  let header := (((bs.put8 flapStart).put8 frame.channel).put16 frame.seqnum).put16
    (UInt16.ofNat payloadlen)
  (header.putbs frame.data.rewind payloadlen).1

def sendframeFlap (fresh : Fresh) (conn : FlapSender) (frame : FlapFrame) (room : Nat) :
    Option (FlapSender × Bytes) :=
  let bs := frameStream fresh frame
  flapConnectionSendByteStream bs.rewind conn bs.offset room

def flapConnectionSend (fresh : Fresh) (conn : FlapSender) (frame : FlapFrame) (room : Nat) :
    Option (FlapSender × Bytes) :=
  let seqnumOut := conn.seqnumOut + 1
  sendframeFlap fresh { conn with seqnumOut } { frame with seqnum := seqnumOut } room

/-- A frame that is handed to `parse_flap`. -/
structure Parsed where
  channel : UInt8
  seqnum : UInt16
  payload : Bytes
deriving DecidableEq, Repr

/-- `buffer_incoming`, with the bytes of the payload that have arrived. -/
structure Incoming where
  channel : UInt8
  seqnum : UInt16
  len : UInt16
  data : Bytes

/-- The fields of a connection that are used to receive, the bytes that have
been sent to it and not yet read, and the frames it has handed on.  `incoming`
is `none` where `buffer_incoming.data.data` is NULL; of `header` only the bytes
received are there. -/
structure FlapReceiver where
  header : Bytes
  incoming : Option Incoming
  destroyScheduled : Bool
  wire : Bytes
  parsed : List Parsed

def incomingOf (header : Bytes) : Incoming where
  channel := (header.drop 1).headD 0
  seqnum := aimutilGet16 (header.drop 2)
  len := aimutilGet16 (header.drop 4)
  data := []

def handleFlap (conn : FlapReceiver) (frame : Incoming) : FlapReceiver :=
  { conn with
    header := []
    incoming := none
    parsed := conn.parsed ++
      [{ channel := frame.channel, seqnum := frame.seqnum, payload := frame.data }] }

/-- One round for each `recv`, with the number of bytes offered to it.  A frame
without payload is handled in the round that completes its header. -/
def flapConnectionRecv : List Nat → FlapReceiver → FlapReceiver
  | [], conn => conn
  | offer :: offers, conn =>
    match conn.incoming with
    | none =>
      let read := min offer (min (6 - conn.header.length) conn.wire.length)
      if read = 0 then conn
      else
        let header := conn.header ++ conn.wire.take read
        let received := { conn with header, wire := conn.wire.drop read }
        if header.length < 6 then received
        else if header.head? ≠ some flapStart then { received with destroyScheduled := true }
        else
          let frame := incomingOf header
          if frame.len = 0 then flapConnectionRecv offers (handleFlap received frame)
          else flapConnectionRecv offers { received with incoming := some frame }
    | some frame =>
      let read := min offer (min (frame.len.toNat - frame.data.length) conn.wire.length)
      if read = 0 then conn
      else
        let frame := { frame with data := frame.data ++ conn.wire.take read }
        let received := { conn with wire := conn.wire.drop read }
        if frame.data.length < frame.len.toNat then { received with incoming := some frame }
        else flapConnectionRecv offers (handleFlap received frame)

structure Payload where
  bytes : Bytes
  fits : bytes.length < 65536

def payloadFrame (channel : UInt8) (payload : Payload) (spare : Bytes) : FlapFrame :=
  { channel, seqnum := 0
    data := { data := payload.bytes ++ spare, offset := payload.bytes.length } }

structure Link where
  sender : FlapSender
  receiver : FlapReceiver
  sent : List (UInt8 × Payload)

inductive LinkAction where
  | send (channel : UInt8) (payload : Payload) (spare : Bytes) (fresh : Fresh) (room : Nat)
  | writable (room : Nat)
  | readable (offers : List Nat)

def Link.emit (link : Link) (written : FlapSender × Bytes) : Link :=
  { link with
    sender := written.1
    receiver := { link.receiver with wire := link.receiver.wire ++ written.2 } }

def linkStep (link : Link) : LinkAction → Option Link
  | .send channel payload spare fresh room =>
    (flapConnectionSend fresh link.sender (payloadFrame channel payload spare) room).map
      fun written => { link.emit written with sent := link.sent ++ [(channel, payload)] }
  | .writable room =>
    if link.sender.watcherOutgoing then (sendCb link.sender room).map link.emit else some link
  | .readable offers => some { link with receiver := flapConnectionRecv offers link.receiver }

def Link.start : Link where
  sender := { bufferOutgoing := purpleCircBufferNew 0, seqnumOut := 0, watcherOutgoing := false }
  receiver :=
    { header := [], incoming := none, destroyScheduled := false, wire := [], parsed := [] }
  sent := []

end Purple.Oscar
