/-
The packets that the MXit protocol transmits one after the other.

Beside the session stands a history of what was asked for, what was written and
which commands the server has not acknowledged; no function reads it.
-/

import Purple.Decimal
import Purple.PartialRun
import Purple.Ring

namespace Purple.Mxit

open Decimal

abbrev Bytes := List UInt8

def maxQueueSize : Nat := 32

/-- Both `header` in `mxit_queue_packet` and the one of a packet have this size. -/
def headerSize : Nat := 256

def mxitTxDelay : Int := 100

def cpCmdPoll : Int := 17

def cpCmdMedia : Int := 27

def cpCmdPing : Int := 1000

/-- What a call asks for; the calls are numbered one after the other. -/
structure Request where
  number : Nat
  cmd : Int
  data : Bytes

def Request.queued (request : Request) : Bool :=
  decide (request.cmd ≠ cpCmdPing ∧ request.cmd ≠ cpCmdPoll)

structure TxPacket where
  cmd : Int
  header : Bytes
  data : Bytes
  number : Nat

def TxPacket.request (packet : TxPacket) : Request :=
  { number := packet.number, cmd := packet.cmd, data := packet.data }

structure Session where
  connected : Bool
  http : Bool
  httpSesid : UInt32
  httpSeqno : UInt32
  username : Bytes
  queue : Ring TxPacket
  lastTx : Int
  outack : Int
  qFastTimer : Bool

/-- A request, and how many packets were waiting if it was refused. -/
structure Offer where
  request : Request
  refusedAt : Option Nat

structure History where
  calls : Nat
  offered : List Offer
  written : List TxPacket
  awaiting : List Int

structure World where
  session : Session
  history : History

/-- The characters that are stored, without the terminator. -/
def scnprintf (size : Nat) (text : Bytes) : Bytes := text.take (size - 1)

/-- `CP_REC_TERM`. -/
def cpRecTerm (session : Session) : UInt8 := if session.http then 38 else 0

def cpFldTerm : UInt8 := 1

/-- `hlen += scnprintf( header + hlen, sizeof( header ) - hlen, … )`. -/
def printOn (header text : Bytes) : Bytes :=
  header ++ scnprintf (headerSize - header.length) text

def idRecord (session : Session) : Bytes := [105, 100, 61] ++ session.username ++ [cpRecTerm session]

def cmRecord (session : Session) (cmd : Int) : Bytes :=
  [99, 109, 61] ++ printInt cmd ++ [cpRecTerm session]

def httpSessionId (session : Session) (header : Bytes) : Bytes :=
  if 0 < session.httpSesid then printOn header (decimal session.httpSesid.toNat ++ [cpFldTerm])
  else header

def httpRecord (session : Session) (header : Bytes) : Bytes :=
  printOn (httpSessionId session (printOn header [115, 61]))
    (decimal session.httpSeqno.toNat ++ [cpRecTerm session])

def genericHeader (session : Session) (cmd : Int) : Bytes :=
  if session.http then
    printOn (httpRecord session (printOn [] (idRecord session))) (cmRecord session cmd)
  else printOn (printOn [] (idRecord session)) (cmRecord session cmd)

def lnRecord (session : Session) (length : Nat) : Bytes :=
  [108, 110, 61] ++ printInt (Int.bmod length (2 ^ 32)) ++ [cpRecTerm session]

/-- What stands in `packet->header` before the generic header is copied behind it. -/
def lengthHeader (session : Session) (length : Nat) : Bytes :=
  if session.http then [] else scnprintf headerSize (lnRecord session length)

/-- The copy of the generic header is `none` where it ends outside the packet's header. -/
def packetHeader (session : Session) (cmd : Int) (data : Bytes) : Option Bytes :=
  let header := genericHeader session cmd
  let length := lengthHeader session (data.length + header.length)
  if length.length + header.length ≤ headerSize then some (length ++ header) else none

/-- `mxit_write_http_post` strips the last terminator off the header. -/
def onWire (session : Session) (packet : TxPacket) : TxPacket :=
  if session.http ∧ packet.cmd = cpCmdMedia then { packet with header := packet.header.dropLast }
  else packet

def sendPacket (now : Int) (world : World) (packet : TxPacket) : World :=
  if world.session.connected then
    { session := { world.session with lastTx := now, outack := packet.cmd }
      history :=
        { world.history with
          written := world.history.written ++ [onWire world.session packet]
          awaiting := world.history.awaiting ++ [packet.cmd] } }
  else world

def recordOffer (offers : List Offer) (request : Request) (refusedAt : Option Nat) : List Offer :=
  if request.queued then offers ++ [{ request := request, refusedAt := refusedAt }] else offers

def offered (world : World) (packet : TxPacket) (refusedAt : Option Nat) : World :=
  { world with
    history :=
      { world.history with
        offered := recordOffer world.history.offered packet.request refusedAt } }

/-- The end of `mxit_queue_packet`: the shortcut, or the queue. -/
def sendOrQueue (now : Int) (world : World) (packet : TxPacket) : World :=
  if world.session.queue.count = 0 ∧ world.session.outack = 0 then
    sendPacket now (offered world packet none) packet
  else if packet.cmd = cpCmdPing ∨ packet.cmd = cpCmdPoll then world
  else
    match world.session.queue.push maxQueueSize packet with
    | some queue =>
      offered { world with session := { world.session with queue } } packet none
    | none => offered world packet (some world.session.queue.count)

structure Call where
  data : Bytes
  cmd : Int
  now : Int

/-- `session->http_seqno++`. -/
def countRequest (session : Session) : Session :=
  if session.http then { session with httpSeqno := session.httpSeqno + 1 } else session

def queuePacket (world : World) (call : Call) : Option World :=
  (packetHeader (countRequest world.session) call.cmd call.data).map fun header =>
    sendOrQueue call.now
      { session := countRequest world.session
        history := { world.history with calls := world.history.calls + 1 } }
      { cmd := call.cmd, header, data := call.data, number := world.history.calls }

/-- The time is read again when the packet is sent.  A timeout of the acknowledgement
only schedules the end of the connection. -/
def manageQueue (now sent : Int) (world : World) : World :=
  if world.session.connected = false then world
  else if 0 < world.session.outack then world
  else if world.session.qFastTimer then world
  else if now - mxitTxDelay < world.session.lastTx then
    { world with session := { world.session with qFastTimer := true } }
  else
    match world.session.queue.pop maxQueueSize with
    | (some packet, queue) =>
      sendPacket sent { world with session := { world.session with queue } } packet
    | (none, _) => world

/-- A packet from the server, and what its processing does: a login may set the
session id, and any processing may queue packets. -/
structure RxPacket where
  cmd : Int
  httpSesid : Option UInt32
  calls : List Call

def acknowledge (world : World) (cmd : Int) : World :=
  { session := if world.session.outack = cmd then { world.session with outack := 0 } else world.session
    history :=
      { world.history with awaiting := world.history.awaiting.filter fun other => other != cmd } }

def setSesid (world : World) (httpSesid : Option UInt32) : World :=
  match httpSesid with
  | some httpSesid => { world with session := { world.session with httpSesid } }
  | none => world

def receivePacket (world : World) (packet : RxPacket) : Option World :=
  packet.calls.foldlM queuePacket (setSesid (acknowledge world packet.cmd) packet.httpSesid)

def parsePacket (packets : List RxPacket) (now sent : Int) (world : World) : Option World :=
  (packets.foldlM receivePacket world).map fun after =>
    if after.session.outack = 0 then manageQueue now sent after else after

inductive Event where
  | queue (call : Call)
  | receive (packets : List RxPacket) (now sent : Int)
  | slow (now sent : Int)
  | fast (now sent : Int)

def manageQueueFast (now sent : Int) (world : World) : World :=
  manageQueue now sent { world with session := { world.session with qFastTimer := false } }

def step (world : World) : Event → Option World
  | .queue call => queuePacket world call
  | .receive packets now sent => parsePacket packets now sent world
  | .slow now sent => some (manageQueue now sent world)
  | .fast now sent => some (manageQueueFast now sent world)

def connected (http : Bool) (httpSesid httpSeqno : UInt32) (username : Bytes) (lastTx : Int) : World :=
  { session :=
      { connected := true, http, httpSesid, httpSeqno, username, queue := Ring.empty, lastTx
        outack := 0, qFastTimer := false }
    history := { calls := 0, offered := [], written := [], awaiting := [] } }

end Purple.Mxit
