/-
Reading from an MSN server, from servconn.c, cmdproc.c and command.c.

What the command processor is given is recorded.  The handlers of a command only
set its `payload_len`, so the connection stays connected and is not wasted while
data is processed.  A read outside a block, or of a byte that was never written,
makes the operation `none`, and so does a number of bytes that does not fit the
`int` in which the connection keeps it.
-/

import Purple.CString

namespace Purple.Msn

open Memory CString

abbrev Bytes := List UInt8

def crlf : Bytes := [13, 10]

def intMax : Nat := 2 ^ 31 - 1

structure MsnCommand where
  command : Bytes
  params : List Bytes
  paramCount : Nat
  trId : UInt32
deriving DecidableEq, Repr

def isNum (str : Bytes) : Bool := str.all fun byte => 48 ≤ byte && byte ≤ 57

/-- `g_strsplit_set` at blanks; the empty string has no parts. -/
def strsplitBlanks (str : Bytes) : List Bytes := if str = [] then [] else str.splitOn 32

def msnCommandFromString (string : Bytes) : MsnCommand :=
  let params := strsplitBlanks ((string.dropWhile (· != 32)).drop 1)
  let paramCount := (params.takeWhile fun param => !param.isEmpty).length
  let param := params.headD []
  { command := string.takeWhile (· != 32), params, paramCount
    trId := if paramCount ≠ 0 ∧ isNum param then UInt32.ofInt (atoi param) else 0 }

inductive Delivered where
  | command (text : Bytes)
  | payload (bytes : Bytes)
deriving DecidableEq, Repr

/-- The `payload_len` that the handlers of a command set, after what was delivered
before it. -/
abbrev Handlers := List Delivered → MsnCommand → Nat

/-- The text that is shown.  `show` is the command with its NUL; it is read at
`len - 1`, and at `len - 2` behind a newline. -/
def showDebugCmd (command : Bytes) : Option Bytes :=
  let len := command.length
  if len = 0 then none
  else if command[len - 1]? ≠ some 10 then some command
  else if len = 1 then none
  else if command[len - 2]? = some 13 then some (command.take (len - 2))
  else some command

structure MsnServConn where
  rxBuf : Block UInt8
  rxLen : Nat
  payloadLen : Nat
  delivered : List Delivered

def msnCmdprocProcessPayload (conn : MsnServConn) (payload : Bytes) : MsnServConn :=
  { conn with payloadLen := 0, delivered := conn.delivered ++ [.payload payload] }

def msnCmdprocProcessCmdText (handlers : Handlers) (conn : MsnServConn) (command : Bytes) :
    Option MsnServConn :=
  (showDebugCmd command).map fun _ =>
    { conn with
      payloadLen := handlers conn.delivered (msnCommandFromString command)
      delivered := conn.delivered ++ [.command command] }

def written (cells : Block UInt8) : Option Bytes := cells.mapM id

def payloadRound (cur : Nat) (conn : MsnServConn) : Option (Option (Nat × MsnServConn)) :=
  if conn.rxLen < conn.payloadLen then some none
  else
    ((conn.rxBuf.load cur conn.payloadLen).bind written).map fun payload =>
      some (conn.payloadLen,
        msnCmdprocProcessPayload { conn with rxLen := conn.rxLen - conn.payloadLen } payload)

/-- A round of the loop with a command to come.  A NUL is written over the carriage
return, and the command is the string up to it. -/
def commandRound (handlers : Handlers) (cur : Nat) (conn : MsnServConn) :
    Option (Option (Nat × MsnServConn)) :=
  (blockString (conn.rxBuf.drop cur)).bind fun string =>
    (strstr crlf string).elim (some none) fun length =>
      (conn.rxBuf.store (cur + length) [some 0]).bind fun rxBuf =>
        (blockString (rxBuf.drop cur)).bind fun command =>
          (msnCmdprocProcessCmdText handlers
            { conn with rxBuf, rxLen := conn.rxLen - (length + 2) } command).map fun next =>
              some (length + 2, next)

/-- One round: nothing where the loop is left, else `cur_len` and the connection. -/
def processRound (handlers : Handlers) (cur : Nat) (conn : MsnServConn) :
    Option (Option (Nat × MsnServConn)) :=
  if conn.payloadLen ≠ 0 then payloadRound cur conn else commandRound handlers cur conn

/-- The loop; it returns `cur`.  Every round takes at least one byte. -/
def processRounds (handlers : Handlers) :
    Nat → Nat → MsnServConn → Option (Nat × MsnServConn)
  | 0, _, _ => none
  | rounds + 1, cur, conn =>
    (processRound handlers cur conn).bind fun round =>
      round.elim (some (cur, conn)) fun next =>
        if 0 < next.2.rxLen then processRounds handlers rounds (cur + next.1) next.2
        else some (cur, next.2)

/-- What the loop leaves is copied to a new block. -/
def msnServconnProcessData (handlers : Handlers) (conn : MsnServConn) : Option MsnServConn :=
  (processRounds handlers (conn.rxLen + 1) 0 conn).bind fun left =>
    if 0 < left.2.rxLen then
      (left.2.rxBuf.load left.1 left.2.rxLen).map fun tail => { left.2 with rxBuf := tail }
    else some { left.2 with rxBuf := [] }

/-- What one `read` returns: at least a byte, and room for a NUL behind it. -/
structure ReadBuf where
  data : Bytes
  positive : 0 < data.length
  short : data.length < 8192

def readCb (handlers : Handlers) (conn : MsnServConn) (buf : ReadBuf) : Option MsnServConn :=
  let len := buf.data.length
  if intMax < conn.rxLen + len then none
  else
    ((conn.rxBuf.realloc (len + conn.rxLen + 1)).store conn.rxLen
      ((buf.data ++ [0]).map some)).bind fun rxBuf =>
        msnServconnProcessData handlers { conn with rxBuf, rxLen := conn.rxLen + len }

def MsnServConn.start : MsnServConn :=
  { rxBuf := [], rxLen := 0, payloadLen := 0, delivered := [] }

end Purple.Msn
