/-
The rate-limited sending of SNACs, from flap_connection.c.

A rate class is addressed by its number in the table.  `unsigned long` has 64
bits, and times are so small that their difference in milliseconds fits a `long`.
A division by zero makes the operation `none`.

What `flap_connection_send` is given is recorded, with the connection as it was
when the decision to send was made.
-/

import Purple.HashTable
import Purple.Oscar.FlapConnection

namespace Purple.Oscar

structure Timeval where
  tvSec : Int
  tvUsec : Int

structure Rateclass where
  windowsize : UInt32
  alert : UInt32
  current : UInt32
  max : UInt32
  droppingSnacs : UInt8
  last : Timeval

structure QueuedSnac where
  family : UInt16
  subtype : UInt16
  frame : FlapFrame

/-- The fields of a connection that decide when a SNAC is sent.  A queue is `none`
until its first use. -/
structure SnacConnection (classes : Nat) where
  rateclasses : Fin classes → Rateclass
  rateclassMembers : HashTable UInt32 (Fin classes)
  defaultRateclass : Option (Fin classes)
  queuedSnacs : Option (List QueuedSnac)
  queuedLowprioritySnacs : Option (List QueuedSnac)
  queuedTimeout : Bool

/-- A SNAC that was given to `flap_connection_send`. -/
structure Transmission (classes : Nat) where
  snac : QueuedSnac
  highPriority : Bool
  now : Timeval
  before : SnacConnection classes

def flapFrameNew (fresh : Fresh) (channel : UInt8) (datalen : Nat) : FlapFrame :=
  { channel, seqnum := 0
    data := if 0 < datalen then byteStreamNew fresh datalen else { data := [], offset := 0 } }

def aimPutsnac (bs : ByteStream) (family subtype : UInt16) (snacid : UInt32) : ByteStream :=
  (((bs.put16 family).put16 subtype).put16 0).put32 snacid

/-- `data` is `none` for NULL. -/
def snacFrame (fresh : Fresh) (family subtype : UInt16) (snacid : UInt32)
    (data : Option ByteStream) : FlapFrame :=
  let length := (data.map ByteStream.offset).getD 0
  let frame := flapFrameNew fresh 0x02 (10 + length)
  let header := aimPutsnac frame.data family subtype snacid
  { frame with
    data := if 0 < length then
      (header.putbs (data.getD { data := [], offset := 0 }).rewind length).1 else header }

/-- `timediff` is in milliseconds; the division rounds towards zero. -/
def rateclassGetNewCurrent (rateclass : Rateclass) (now : Timeval) : Option UInt32 :=
  if rateclass.windowsize = 0 then none
  else
    let timediff := UInt64.ofInt ((now.tvSec - rateclass.last.tvSec) * 1000 +
      (now.tvUsec - rateclass.last.tvUsec).tdiv 1000)
    let current := (((rateclass.current * (rateclass.windowsize - 1)).toUInt64 + timediff) /
      rateclass.windowsize.toUInt64).toUInt32
    some (min current rateclass.max)

namespace SnacConnection

variable {classes : Nat}

def flapConnectionGetRateclass (conn : SnacConnection classes) (family subtype : UInt16) :
    Option (Fin classes) :=
  (conn.rateclassMembers.lookup ((family.toUInt32 <<< 16) + subtype.toUInt32)).or
    conn.defaultRateclass

/-- The test before a SNAC is sent, and the connection to send it on if it may be
sent.  Both senders make it. -/
def admitSnac (conn : SnacConnection classes) (now : Timeval) (family subtype : UInt16) :
    Option (Option (SnacConnection classes)) :=
  match conn.flapConnectionGetRateclass family subtype with
  | none => some (some conn)
  | some index =>
    let rateclass := conn.rateclasses index
    (rateclassGetNewCurrent rateclass now).map fun newCurrent =>
      if rateclass.droppingSnacs ≠ 0 ∨ newCurrent ≤ rateclass.alert then none
      else some { conn with
        rateclasses := Function.update conn.rateclasses index
          { rateclass with current := newCurrent, last := now } }

def queue (conn : SnacConnection classes) (highPriority : Bool) : Option (List QueuedSnac) :=
  if highPriority then conn.queuedSnacs else conn.queuedLowprioritySnacs

def setQueue (conn : SnacConnection classes) (highPriority : Bool) (snacs : List QueuedSnac) :
    SnacConnection classes :=
  if highPriority then { conn with queuedSnacs := some snacs }
  else { conn with queuedLowprioritySnacs := some snacs }

def waiting (conn : SnacConnection classes) (highPriority : Bool) : List QueuedSnac :=
  (conn.queue highPriority).getD []

def enqueue (conn : SnacConnection classes) (highPriority : Bool) (snac : QueuedSnac) :
    SnacConnection classes :=
  { conn.setQueue highPriority (conn.waiting highPriority ++ [snac]) with queuedTimeout := true }

end SnacConnection

/-- The returned `gboolean`, the connection and what was sent. -/
structure Sending (classes : Nat) where
  emptied : Bool
  conn : SnacConnection classes
  transmitted : List (Transmission classes)

variable {classes : Nat}

def flapConnectionSendSnacQueue (now : Timeval) (highPriority : Bool) :
    List QueuedSnac → SnacConnection classes → Option (Sending classes)
  | [], conn => some { emptied := true, conn, transmitted := [] }
  | snac :: rest, conn =>
    (conn.admitSnac now snac.family snac.subtype).bind fun admitted =>
      admitted.elim (some { emptied := false, conn, transmitted := [] }) fun after =>
        (flapConnectionSendSnacQueue now highPriority rest
          (after.setQueue highPriority rest)).map fun sending =>
            { sending with
              transmitted := { snac, highPriority, now, before := conn } :: sending.transmitted }

/-- A queue that was never used counts as emptied. -/
def sendQueueUnlessNull (now : Timeval) (highPriority : Bool) (conn : SnacConnection classes) :
    Option (Sending classes) :=
  (conn.queue highPriority).elim (some { emptied := true, conn, transmitted := [] }) fun queue =>
    flapConnectionSendSnacQueue now highPriority queue conn

/-- The timer's callback; it is removed where both queues are emptied. -/
def flapConnectionSendQueued (conn : SnacConnection classes) (now : Timeval) :
    Option (SnacConnection classes × List (Transmission classes)) :=
  (sendQueueUnlessNull now true conn).bind fun first =>
    if first.emptied then
      (sendQueueUnlessNull now false first.conn).map fun second =>
        (if second.emptied then { second.conn with queuedTimeout := false } else second.conn,
          first.transmitted ++ second.transmitted)
    else some (first.conn, first.transmitted)

def flapConnectionSendSnacWithPriority (conn : SnacConnection classes) (snac : QueuedSnac)
    (highPriority : Bool) (now : Timeval) :
    Option (SnacConnection classes × List (Transmission classes)) :=
  if conn.queuedTimeout then some (conn.enqueue highPriority snac, [])
  else
    (conn.admitSnac now snac.family snac.subtype).map fun admitted =>
      admitted.elim (conn.enqueue highPriority snac, []) fun after =>
        (after, [{ snac, highPriority, now, before := conn }])

structure Traffic (classes : Nat) where
  conn : SnacConnection classes
  submitted : List (Bool × QueuedSnac)
  transmitted : List (Transmission classes)

inductive SnacAction where
  | sendSnac (family subtype : UInt16) (snacid : UInt32) (data : Option ByteStream)
      (highPriority : Bool) (now : Timeval) (fresh : Fresh)
  | tick (now : Timeval)

def trafficStep (traffic : Traffic classes) : SnacAction → Option (Traffic classes)
  | .sendSnac family subtype snacid data highPriority now fresh =>
    let snac := { family, subtype, frame := snacFrame fresh family subtype snacid data }
    (flapConnectionSendSnacWithPriority traffic.conn snac highPriority now).map fun sent =>
      { conn := sent.1
        submitted := traffic.submitted ++ [(highPriority, snac)]
        transmitted := traffic.transmitted ++ sent.2 }
  | .tick now =>
    if traffic.conn.queuedTimeout then
      (flapConnectionSendQueued traffic.conn now).map fun sent =>
        { traffic with conn := sent.1, transmitted := traffic.transmitted ++ sent.2 }
    else some traffic

/-- A connection on which nothing was sent, with any rate classes. -/
def Traffic.start (rateclasses : Fin classes → Rateclass)
    (rateclassMembers : HashTable UInt32 (Fin classes)) (defaultRateclass : Option (Fin classes)) :
    Traffic classes where
  conn :=
    { rateclasses, rateclassMembers, defaultRateclass, queuedSnacs := none
      queuedLowprioritySnacs := none, queuedTimeout := false }
  submitted := []
  transmitted := []

end Purple.Oscar
