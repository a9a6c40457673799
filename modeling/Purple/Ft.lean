/-
File transfers of ft.c.

A `size_t` is a natural number below 2^64 and its sums and differences wrap.
What the callbacks, the UI and the system answer during a call is an argument of
the call.  A cancelled or finished transfer is `ended`: its sources are removed,
its file is closed, and it may be freed.
-/

import Mathlib.Algebra.Group.Nat.Defs

namespace Purple.Ft

def sizeLimit : Nat := 2 ^ 64

def addSize (left right : Nat) : Nat := (left + right) % sizeLimit

def subSize (left right : Nat) : Nat := (left + sizeLimit - right) % sizeLimit

inductive XferType where
  | send
  | receive
deriving DecidableEq

inductive Status where
  | notStarted
  | started
  | done
  | cancelLocal
  | cancelRemote
deriving DecidableEq

/-- A file opened for the transfer, with the place of the next access. -/
structure OpenFile where
  content : List UInt8
  position : Nat

/-- `socket` and `written` record what the socket accepted and how many bytes
went into the file. -/
structure PurpleXfer where
  type : XferType
  size : Nat
  bytesSent : Nat
  bytesRemaining : Nat
  currentBufferSize : Nat
  status : Status
  destFp : Option OpenFile
  buffer : Option (List UInt8)
  opsRead : Bool
  opsWrite : Bool
  uiRead : Bool
  uiWrite : Bool
  ended : Bool
  socket : List UInt8
  written : Nat

/-- What `read` or `write` returns, at most as much as it was asked for. -/
inductive SystemCall where
  | count (bytes : Nat)
  | again
  | failed

/-- The answers to one call.  `uiRead` is the data of the UI, or an error. -/
structure Answers where
  opsRead : Int
  read : SystemCall
  fileWrite : Nat
  uiRead : Option (List UInt8)
  opsWrite : Int
  write : SystemCall

def ftInitialBufferSize : Nat := 4096

def ftMaxBufferSize : Nat := 65535

/-- The private buffer is there unless the UI takes unsent data back. -/
def purpleXferNew (type : XferType) (opsRead opsWrite uiRead uiWrite dataNotSent : Bool) :
    PurpleXfer :=
  { type, size := 0, bytesSent := 0, bytesRemaining := 0
    currentBufferSize := ftInitialBufferSize, status := .notStarted, destFp := none
    buffer := if dataNotSent then none else some []
    opsRead, opsWrite, uiRead, uiWrite, ended := false, socket := [], written := 0 }

def purpleXferSetSize (xfer : PurpleXfer) (size : Nat) : PurpleXfer :=
  { xfer with size, bytesRemaining := subSize size xfer.bytesSent }

def purpleXferSetBytesSent (xfer : PurpleXfer) (bytesSent : Nat) : PurpleXfer :=
  { xfer with bytesSent, bytesRemaining := subSize xfer.size bytesSent }

def purpleXferCancelLocal (xfer : PurpleXfer) : PurpleXfer :=
  { xfer with status := .cancelLocal, bytesRemaining := 0, destFp := none, ended := true }

def purpleXferCancelRemote (xfer : PurpleXfer) : PurpleXfer :=
  { xfer with status := .cancelRemote, bytesRemaining := 0, destFp := none, ended := true }

/-- `purple_xfer_end` of a completed transfer. -/
def purpleXferEnd (xfer : PurpleXfer) : PurpleXfer := { xfer with destFp := none, ended := true }

/-- `begin_transfer` with the file opened at the bytes sent so far. -/
def beginTransfer (xfer : PurpleXfer) (content : List UInt8) : PurpleXfer :=
  { xfer with status := .started, destFp := some { content, position := xfer.bytesSent } }

def purpleXferIncreaseBufferSize (xfer : PurpleXfer) : PurpleXfer :=
  { xfer with currentBufferSize := min (xfer.currentBufferSize * 3 / 2) ftMaxBufferSize }

/-- The number of bytes a system call moved, or -1; `EAGAIN` counts as none. -/
def systemCount (limit : Nat) : SystemCall → Int
  | .count bytes => (min bytes limit : Nat)
  | .again => 0
  | .failed => -1

def readCount (limit : Nat) (call : SystemCall) : Int :=
  match call with
  | .again => 0
  | call => if systemCount limit call = 0 then -1 else systemCount limit call

def purpleXferRead (xfer : PurpleXfer) (answers : Answers) : Int × PurpleXfer :=
  let s :=
    if xfer.size = 0 then xfer.currentBufferSize
    else min xfer.bytesRemaining xfer.currentBufferSize
  let r := if xfer.opsRead then answers.opsRead else readCount s answers.read
  (r, if r ≥ 0 ∧ r = xfer.currentBufferSize then purpleXferIncreaseBufferSize xfer else xfer)

/-- `purple_xfer_set_completed (xfer, TRUE)` when the bytes sent reach the size. -/
def completeAt (xfer : PurpleXfer) (bytes : Nat) : PurpleXfer :=
  if addSize xfer.bytesSent bytes ≥ xfer.size then { xfer with status := .done } else xfer

def purpleXferWrite (xfer : PurpleXfer) (data : List UInt8) (answers : Answers) : Int × PurpleXfer :=
  if data = [] then (0, xfer)
  else
    let s := min xfer.bytesRemaining data.length
    let r := if xfer.opsWrite then answers.opsWrite else systemCount s answers.write
    let sent := { xfer with socket := xfer.socket ++ data.take r.toNat }
    (r, if r ≥ 0 ∧ sent.status ≠ .done then completeAt sent r.toNat else sent)

/-- Of the bytes handed to the UI or to `fwrite`, at most all are written. -/
def purpleXferWriteFile (xfer : PurpleXfer) (size : Nat) (answers : Answers) : PurpleXfer :=
  let size := if xfer.size > 0 ∧ size > xfer.bytesRemaining then xfer.bytesRemaining else size
  if xfer.uiWrite = false ∧ xfer.destFp.isNone then purpleXferCancelLocal xfer
  else
    let stored := { xfer with written := xfer.written + min answers.fileWrite size }
    if answers.fileWrite ≠ size then purpleXferCancelLocal stored
    else purpleXferSetBytesSent stored (addSize xfer.bytesSent size)

/-- `got` is what the UI or `fread` returns and `failed` what `ferror` says. -/
def purpleXferReadFile (xfer : PurpleXfer) (size : Nat) (got : Int) (failed : Bool) : Int × PurpleXfer :=
  let refused :=
    if xfer.uiRead then decide (got > size)
    else xfer.destFp.isNone || (decide (got ≠ size) && failed)
  if refused then (-1, purpleXferCancelLocal xfer)
  else
    (got, if got > 0 then purpleXferSetBytesSent xfer (addSize xfer.bytesSent got.toNat) else xfer)

def countTransferred (xfer : PurpleXfer) (r : Int) : PurpleXfer :=
  if r > 0 then
    { xfer with
      bytesRemaining :=
        if xfer.size > 0 then subSize xfer.bytesRemaining r.toNat else xfer.bytesRemaining
      bytesSent := addSize xfer.bytesSent r.toNat }
  else xfer

/-- The end of `do_transfer`, with `r` bytes transferred. -/
def finishTransfer (xfer : PurpleXfer) (r : Int) : PurpleXfer :=
  if (countTransferred xfer r).status = .done then purpleXferEnd (countTransferred xfer r)
  else countTransferred xfer r

/-- The receiving side with `r` bytes read. -/
def receiveData (xfer : PurpleXfer) (r : Int) (answers : Answers) : PurpleXfer :=
  if r > 0 then
    let stored := { xfer with written := xfer.written + min answers.fileWrite r.toNat }
    if (answers.fileWrite : Int) ≠ r then purpleXferCancelLocal stored
    else finishTransfer (if stored.size > 0 then completeAt stored r.toNat else stored) r
  else if r < 0 then purpleXferCancelRemote xfer
  else finishTransfer xfer r

def doTransferReceive (xfer : PurpleXfer) (answers : Answers) : PurpleXfer :=
  receiveData (purpleXferRead xfer answers).2 (purpleXferRead xfer answers).1 answers

/-- What the sending side reads next: nothing when the buffer holds enough. -/
def readSize (xfer : PurpleXfer) : Option Nat :=
  let s := min xfer.bytesRemaining xfer.currentBufferSize
  match xfer.buffer with
  | none => some s
  | some pending => if pending.length < s then some (s - pending.length) else none

inductive ReadResult where
  | data (bytes : List UInt8) (xfer : PurpleXfer)
  | nothingYet
  | failed

def readData (xfer : PurpleXfer) (answers : Answers) : Option Nat → ReadResult
  | none => .data [] xfer
  | some s =>
    if xfer.uiRead then
      match answers.uiRead with
      | none => .failed
      | some [] => .nothingYet
      | some bytes => .data bytes xfer
    else
      match xfer.destFp with
      | none => .failed
      | some file =>
        let bytes := (file.content.drop file.position).take s
        if bytes.length ≠ s then .failed
        else
          let read := { file with position := file.position + bytes.length }
          .data bytes { xfer with destFp := some read }

/-- `g_byte_array_remove_range (buffer, 0, r)`; the length is a `guint`. -/
def removeRange (r : Int) (buffer : List UInt8) : List UInt8 :=
  let length := (r % 4294967296).toNat
  if length ≤ buffer.length then buffer.drop length else buffer

/-- The sending side with `r` of `length` bytes accepted. -/
def sendData (xfer : PurpleXfer) (r : Int) (length : Nat) : PurpleXfer :=
  if r = -1 then purpleXferCancelRemote xfer
  else
    let grown := if r ≥ 0 ∧ r = (length : Int) then purpleXferIncreaseBufferSize xfer else xfer
    finishTransfer { grown with buffer := grown.buffer.map (removeRange r) } r

def writeData (xfer : PurpleXfer) (data : List UInt8) (answers : Answers) : PurpleXfer :=
  sendData (purpleXferWrite xfer data answers).2 (purpleXferWrite xfer data answers).1 data.length

def doTransferSend (xfer : PurpleXfer) (answers : Answers) : PurpleXfer :=
  if min xfer.bytesRemaining xfer.currentBufferSize = 0 then xfer
  else
    match readData xfer answers (readSize xfer) with
    | .failed => purpleXferCancelLocal xfer
    | .nothingYet => xfer
    | .data bytes read =>
      match read.buffer with
      | none => writeData read bytes answers
      | some pending =>
        let data := pending ++ bytes
        writeData { read with buffer := some data } data answers

def doTransfer (xfer : PurpleXfer) (answers : Answers) : PurpleXfer :=
  match xfer.type with
  | .receive => doTransferReceive xfer answers
  | .send => doTransferSend xfer answers

theorem addSize_eq {left right : Nat} (fits : left + right < sizeLimit) :
    addSize left right = left + right := Nat.mod_eq_of_lt fits

theorem subSize_eq {left right : Nat} (within : right ≤ left) (fits : left < sizeLimit) :
    subSize left right = left - right := by
  unfold subSize
  have rearranged : left + sizeLimit - right = (left - right) + sizeLimit := by omega
  rw [rearranged, Nat.add_mod_right, Nat.mod_eq_of_lt (by omega)]

end Purple.Ft
