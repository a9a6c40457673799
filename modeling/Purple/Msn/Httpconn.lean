/-
Reading from an MSN server through its HTTP gateway, from httpconn.c.

`rx_buf` holds `rx_len` bytes with a NUL behind them.  What the connection sends
when a response has been read is not part of the model, as nothing that is read
depends on it.  The bodies given to `msn_servconn_process_data` are recorded, each
with the unprocessed bytes of the server connection that it replaced.
-/

import Purple.Msn.Servconn

namespace Purple.Msn

open Memory CString

def blankLine : Bytes := crlf ++ crlf

def http11Ok : Bytes := ascii "HTTP/1.1 200 OK" ++ crlf

def http11Continue : Bytes := ascii "HTTP/1.1 100 Continue" ++ crlf

def http10Ok : Bytes := ascii "HTTP/1.0 200 OK" ++ crlf

def http10Continue : Bytes := ascii "HTTP/1.0 100 Continue" ++ crlf

/-- The text behind a field's name, up to the carriage return; `none` where the name
does not occur, and nothing behind it where the line does not end. -/
def fieldText (name header : Bytes) : Option (Option Bytes) :=
  (strcasestr name header).map fun offset =>
    let behind := header.drop (offset + name.length)
    if 13 ∈ behind then some (behind.takeWhile (· != 13)) else none

def contentLengthName : Bytes := ascii "Content-Length: "

def messengerName : Bytes := ascii "X-MSN-Messenger: "

/-- `g_strsplit` with the number of splits that are made. -/
def strsplitRounds (delimiter : Bytes) : Nat → Bytes → List Bytes
  | 0, text => [text]
  | rounds + 1, text =>
    match strstr delimiter text with
    | none => [text]
    | some offset =>
      text.take offset :: strsplitRounds delimiter rounds (text.drop (offset + delimiter.length))

/-- `g_strsplit`; the empty string has no parts, and `maxTokens` 0 is no limit. -/
def strsplit (delimiter : Bytes) (maxTokens : Nat) (text : Bytes) : List Bytes :=
  if text = [] then []
  else strsplitRounds delimiter (if maxTokens = 0 then text.length else maxTokens - 1) text

/-- What the `X-MSN-Messenger` field says. -/
structure SessionFields where
  fullSessionId : Option Bytes
  gwIp : Option Bytes
  sessionAction : Option Bytes

/-- An element without tokens is compared as NULL, which is `none`. -/
def sessionElement (fields : SessionFields) (element : Bytes) : Option SessionFields :=
  let tokens := strsplit (ascii "=") 2 element
  tokens.head?.map fun name =>
    if name = ascii "SessionID" then { fields with fullSessionId := tokens[1]? }
    else if name = ascii "GW-IP" then { fields with gwIp := tokens[1]? }
    else if name = ascii "Session" then { fields with sessionAction := tokens[1]? }
    else fields

def sessionFields (text : Bytes) : Option SessionFields :=
  (strsplit (ascii "; ") 0 text).foldlM sessionElement
    { fullSessionId := none, gwIp := none, sessionAction := none }

structure HttpSession where
  fullSessionId : Option Bytes
  sessionId : Option Bytes
  host : Option Bytes

def storeSession (session : HttpSession) (fields : SessionFields) : HttpSession :=
  if fields.sessionAction = some (ascii "close") then session
  else
    { fullSessionId := fields.fullSessionId
      sessionId := fields.fullSessionId.map fun full => full.takeWhile (· != 46)
      host := fields.gwIp }

/-- What `msn_httpconn_parse_data` reports: `*error`, FALSE alone, or TRUE with a body. -/
inductive ParseResult where
  | error
  | wait
  | done (body : Bytes) (session : HttpSession)

/-- The field that the session is read from; a malformed one is reported. -/
def parseSession (session : HttpSession) (header body : Bytes) : Option ParseResult :=
  match fieldText messengerName header with
  | none => some (.done body session)
  | some none => some .error
  | some (some text) => (sessionFields text).map fun fields =>
    .done body (storeSession session fields)

/-- From the header on.  `atoi`'s result is compared as a `size_t`. -/
def parseHeader (session : HttpSession) (buf : Bytes) : Option ParseResult :=
  match strstr blankLine (cString buf) with
  | none => some .wait
  | some offset =>
    let header := buf.take (offset + 4)
    let body := buf.drop (offset + 4)
    match fieldText contentLengthName header with
    | none => parseSession session header body
    | some none => some .wait
    | some (some text) =>
      if (UInt64.ofInt (atoi text)).toNat ≠ body.length then some .wait
      else parseSession session header body

/-- A `100 Continue` block alone is a response without a body; behind it the header
starts. -/
def parseContinue (session : HttpSession) (buf : Bytes) : Option ParseResult :=
  match strstr blankLine (cString buf) with
  | none => some .wait
  | some offset =>
    if (buf.drop (offset + 4)).headD 0 = 0 then some (.done [] session)
    else parseHeader session (buf.drop (offset + 4))

def msnHttpconnParseData (session : HttpSession) (buf : Bytes) : Option ParseResult :=
  if ¬http11Ok <+: buf ∧ ¬http11Continue <+: buf ∧ ¬http10Ok <+: buf ∧ ¬http10Continue <+: buf then
    some .error
  else if http11Continue <+: buf then parseContinue session buf
  else parseHeader session buf

/-- A body given to the server connection, and what it replaced there. -/
structure Handed where
  body : Bytes
  replaced : Nat
deriving DecidableEq, Repr

structure MsnHttpConn where
  rxBuf : Bytes
  session : HttpSession
  servconn : MsnServConn
  handed : List Handed
  failed : Bool

def withBody (servconn : MsnServConn) (body : Bytes) : MsnServConn :=
  { servconn with rxBuf := (body ++ [0]).map some, rxLen := body.length }

/-- What is done with the result of parsing; an empty body is not handed on. -/
def takeResult (handlers : Handlers) (received : MsnHttpConn) : ParseResult → Option MsnHttpConn
  | .error => some { received with failed := true }
  | .wait => some received
  | .done body session =>
    let parsed := { received with rxBuf := [], session }
    if body = [] then some parsed
    else
      (msnServconnProcessData handlers (withBody received.servconn body)).map fun servconn =>
        { parsed with
          servconn
          handed := received.handed ++ [{ body, replaced := received.servconn.rxLen }] }

/-- A connection on which an error was reported is closed, and is not read again. -/
def httpReadCb (handlers : Handlers) (conn : MsnHttpConn) (buf : ReadBuf) : Option MsnHttpConn :=
  if conn.failed then some conn
  else if intMax < conn.rxBuf.length + buf.data.length then none
  else
    (msnHttpconnParseData conn.session (conn.rxBuf ++ buf.data)).bind
      (takeResult handlers { conn with rxBuf := conn.rxBuf ++ buf.data })

def MsnHttpConn.start : MsnHttpConn where
  rxBuf := []
  session := { fullSessionId := none, sessionId := none, host := none }
  servconn := MsnServConn.start
  handed := []
  failed := false

end Purple.Msn
