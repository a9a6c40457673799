/-
Reading lines from an IRC server, from irc.c.

The lines that `irc_parse_msg` is given are recorded.  Parsing a line does not touch
the input buffer.  A read or a store outside the buffer, or a size that does not fit
the `int` in which the connection keeps it, makes the operation `none`.
-/

import Purple.CString

namespace Purple.Irc

open Memory CString

abbrev Bytes := List UInt8

def crlf : Bytes := [13, 10]

def lf : Bytes := [10]

def intMax : Nat := 2 ^ 31 - 1

def ircInitialBufsize : Nat := 1024

/-- The part of a connection that reads; `lost` counts the errors it has reported. -/
structure IrcConn where
  inbuf : Block UInt8
  inbuflen : Nat
  inbufused : Nat
  parsed : List Bytes
  lost : Nat

def skipNuls : Nat → Block UInt8 → Option Nat
  | 0, _ => some 0
  | _ + 1, [] => none
  | _ + 1, none :: _ => none
  | left + 1, some byte :: rest => if byte = 0 then (skipNuls left rest).map (· + 1) else some 0

/-- `(end = strstr(cur, "\r\n")) || (end = strstr(cur, "\n"))`, with the step behind it. -/
def lineEnd (string : Bytes) : Option (Nat × Nat) :=
  ((strstr crlf string).map fun length => (length, 2)).or
    ((strstr lf string).map fun length => (length, 1))

def ircParseMsg (irc : IrcConn) (input : Bytes) : IrcConn :=
  { irc with parsed := irc.parsed ++ [input] }

/-- A round of the loop: the new `cur`, if there was a line. -/
def lineRound (cur : Nat) (irc : IrcConn) : Option (Option (Nat × IrcConn)) :=
  if cur < irc.inbufused then
    (blockString (irc.inbuf.drop cur)).bind fun string =>
      (lineEnd string).elim (some none) fun found =>
        (irc.inbuf.store (cur + found.1) [some 0]).bind fun inbuf =>
          (blockString (inbuf.drop cur)).map fun line =>
            some (cur + found.1 + found.2, ircParseMsg { irc with inbuf } line)
  else some none

/-- The loop; it returns `cur`.  Every round takes at least one byte. -/
def lineRounds : Nat → Nat → IrcConn → Option (Nat × IrcConn)
  | 0, _, _ => none
  | rounds + 1, cur, irc =>
    (lineRound cur irc).bind fun round =>
      round.elim (some (cur, irc)) fun next => lineRounds rounds next.1 next.2

def keepLeftover (cur : Nat) (irc : IrcConn) : Option IrcConn :=
  if cur ≠ irc.inbufused then
    let inbufused := irc.inbufused - cur
    ((irc.inbuf.load cur inbufused).bind fun leftover => irc.inbuf.store 0 leftover).map
      fun inbuf => { irc with inbuf, inbufused }
  else some { irc with inbufused := 0 }

def readInput (irc : IrcConn) (len : Nat) : Option IrcConn :=
  let inbufused := irc.inbufused + len
  (irc.inbuf.store inbufused [some 0]).bind fun inbuf =>
    (skipNuls inbufused inbuf).bind fun cur =>
      (lineRounds (inbufused + 1) cur { irc with inbuf, inbufused }).bind fun left =>
        keepLeftover left.1 left.2

/-- What one `read` or `purple_ssl_read` returns. -/
inductive Reading where
  | data (bytes : Bytes) (positive : bytes ≠ []) (short : bytes.length ≤ ircInitialBufsize - 1)
  | again
  | failed
  | closed

def growInbuf (irc : IrcConn) : Option IrcConn :=
  if irc.inbuflen < irc.inbufused + ircInitialBufsize then
    let inbuflen := irc.inbuflen + ircInitialBufsize
    if intMax < inbuflen then none
    else some { irc with inbuflen, inbuf := irc.inbuf.realloc inbuflen }
  else some irc

def connectionError (irc : IrcConn) : IrcConn := { irc with lost := irc.lost + 1 }

/-- `irc_input_cb`; `irc_input_cb_ssl` does the same on a connection that is listed. -/
def ircInputCb (irc : IrcConn) (reading : Reading) : Option IrcConn :=
  (growInbuf irc).bind fun irc =>
    match reading with
    | .data bytes _ _ =>
      (irc.inbuf.store irc.inbufused (bytes.map some)).bind fun inbuf =>
        readInput { irc with inbuf } bytes.length
    | .again => some irc
    | .failed => some (connectionError irc)
    | .closed => some (connectionError irc)

def IrcConn.start : IrcConn := { inbuf := [], inbuflen := 0, inbufused := 0, parsed := [], lost := 0 }

end Purple.Irc
