/-
Messages in several parts, from cmdproc.c and msg.c.

The table keeps the key that it was first given for an id; the key is a string in
the headers of a message, and is gone with that message.  Reading a message or a
key that was freed makes the operation `none`.  The callbacks of a content type
are not part of the model: a message that they are looked up for is recorded as it
is then.  They neither keep it nor touch the table.
-/

import Purple.CString
import Purple.HashTable
import Purple.Memory.Heap

namespace Purple.Msn

open Memory CString

structure MsnMessage where
  refCount : Nat
  contentType : Option (List UInt8)
  body : Block UInt8
  bodyLen : Nat
  totalChunks : UInt32
  receivedChunks : UInt32
  headerTable : HashTable (List UInt8) (List UInt8)

def msnMessageGetHeaderValue (msg : MsnMessage) (name : String) : Option (List UInt8) :=
  msg.headerTable.lookup (ascii name)

structure Incoming where
  contentType : Option (List UInt8)
  headers : HashTable (List UInt8) (List UInt8)
  body : List UInt8

/-- The body has a NUL behind it; an empty one is NULL. -/
def parsedMessage (incoming : Incoming) : MsnMessage where
  refCount := 1
  contentType := incoming.contentType
  body := if incoming.body = [] then [] else (incoming.body ++ [0]).map some
  bodyLen := incoming.body.length
  totalChunks := 0
  receivedChunks := 0
  headerTable := incoming.headers

def addRef (msg : MsnMessage) : MsnMessage := { msg with refCount := msg.refCount + 1 }

def dropRef (msg : MsnMessage) : MsnMessage := { msg with refCount := msg.refCount - 1 }

/-- The message is destroyed with its last reference. -/
def msnMessageUnref (heap : Heap MsnMessage) (msg : Nat) : Option (Heap MsnMessage) :=
  (heap.read msg).bind fun cell =>
    if cell.refCount = 1 then heap.dispose msg else heap.write msg dropRef

/-- An entry of `multiparts`.  `key` is the message whose header is the key. -/
structure Multipart where
  key : Nat
  message : Nat

structure MsnCmdProc where
  heap : Heap MsnMessage
  multiparts : HashTable (List UInt8) Multipart
  dispatched : List MsnMessage

def MsnCmdProc.start : MsnCmdProc :=
  { heap := Heap.empty, multiparts := HashTable.empty, dispatched := [] }

def multipartsLookup (cmdproc : MsnCmdProc) (id : List UInt8) : Option (Option Multipart) :=
  match cmdproc.multiparts.lookup id with
  | none => some none
  | some entry => (cmdproc.heap.read entry.key).map fun _ => some entry

/-- The message gets a reference.  Where the id has an entry its key is kept, and its
message loses one. -/
def multipartsInsert (cmdproc : MsnCmdProc) (id : List UInt8) (msg : Nat) : Option MsnCmdProc :=
  (multipartsLookup cmdproc id).bind fun found =>
    (cmdproc.heap.write msg addRef).bind fun heap =>
      found.elim
        (some { cmdproc with
          heap, multiparts := cmdproc.multiparts.insert id { key := msg, message := msg } })
        fun entry =>
          (msnMessageUnref heap entry.message).map fun heap =>
            { cmdproc with
              heap, multiparts := cmdproc.multiparts.insert id { entry with message := msg } }

def multipartsRemove (cmdproc : MsnCmdProc) (id : List UInt8) : Option MsnCmdProc :=
  (multipartsLookup cmdproc id).bind fun found =>
    found.elim (some cmdproc) fun entry =>
      (msnMessageUnref cmdproc.heap entry.message).map fun heap =>
        { cmdproc with heap, multiparts := cmdproc.multiparts.remove id }

/-- `strtol`, cut to a `guint`. -/
def chunkNumber (text : List UInt8) : UInt32 := UInt32.ofInt (strtol text)

/-- The end of `msn_cmdproc_process_msg`: without a content type nothing is done, also not
to the table. -/
def dispatchMsg (cmdproc : MsnCmdProc) (messageId : Option (List UInt8)) (msg : Nat) :
    Option MsnCmdProc :=
  (cmdproc.heap.read msg).bind fun cell =>
    if cell.contentType = none then some cmdproc
    else
      let dispatched := { cmdproc with dispatched := cmdproc.dispatched ++ [cell] }
      messageId.elim (some dispatched) (multipartsRemove dispatched)

/-- The body is reallocated to the sum of the lengths, and the other body copied behind
it. -/
def appendBody (first msg : MsnMessage) : Option MsnMessage :=
  (msg.body.load 0 msg.bodyLen).bind fun bytes =>
    ((first.body.realloc (first.bodyLen + msg.bodyLen)).store first.bodyLen bytes).map fun body =>
      { first with
        body
        bodyLen := first.bodyLen + msg.bodyLen
        receivedChunks := first.receivedChunks + 1 }

/-- A part with the number `chunk`, for which the entry was found. -/
def processChunk (cmdproc : MsnCmdProc) (messageId : List UInt8) (entry : Multipart)
    (chunk : UInt32) (msg : MsnMessage) : Option MsnCmdProc :=
  (cmdproc.heap.read entry.message).bind fun first =>
    if first.receivedChunks ≠ chunk then multipartsRemove cmdproc messageId
    else
      (appendBody first msg).bind fun grown =>
        (cmdproc.heap.write entry.message fun _ => grown).bind fun heap =>
          if grown.receivedChunks ≠ grown.totalChunks then some { cmdproc with heap }
          else dispatchMsg { cmdproc with heap } (some messageId) entry.message

def processFirst (cmdproc : MsnCmdProc) (messageId : List UInt8) (chunk : UInt32) (msg : Nat) :
    Option MsnCmdProc :=
  if 0 < chunk ∧ chunk < 1024 then
    (cmdproc.heap.write msg fun cell => { cell with totalChunks := chunk, receivedChunks := 1 }).bind
      fun heap => multipartsInsert { cmdproc with heap } messageId msg
  else some cmdproc

def processIdentified (cmdproc : MsnCmdProc) (msg : Nat) (cell : MsnMessage)
    (messageId : List UInt8) : Option MsnCmdProc :=
  match msnMessageGetHeaderValue cell "Chunks" with
  | some text => processFirst cmdproc messageId (chunkNumber text) msg
  | none =>
    match msnMessageGetHeaderValue cell "Chunk" with
    | some text =>
      (multipartsLookup cmdproc messageId).bind fun found =>
        found.elim (dispatchMsg cmdproc (some messageId) msg) fun entry =>
          processChunk cmdproc messageId entry (chunkNumber text) cell
    | none => dispatchMsg cmdproc (some messageId) msg

def msnCmdprocProcessMsg (cmdproc : MsnCmdProc) (msg : Nat) : Option MsnCmdProc :=
  (cmdproc.heap.read msg).bind fun cell =>
    (msnMessageGetHeaderValue cell "Message-ID").elim (dispatchMsg cmdproc none msg)
      (processIdentified cmdproc msg cell)

/-- The caller's reference is the message's first, and is dropped at the end. -/
def msgCmdPost (cmdproc : MsnCmdProc) (incoming : Incoming) : Option MsnCmdProc :=
  let msg := cmdproc.heap.fresh
  let received := { cmdproc with heap := cmdproc.heap.alloc (parsedMessage incoming) }
  (msnCmdprocProcessMsg received msg).bind fun processed =>
    (msnMessageUnref processed.heap msg).map fun heap => { processed with heap }

end Purple.Msn
