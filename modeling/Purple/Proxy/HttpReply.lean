/-
Reading the reply to a CONNECT request, from proxy.c.

The socket is the list of what arrives; behind it the connection is closed.  An access
outside the buffer, or to a part of it that was never written, makes the operation `none`.
The replies to an NTLM challenge and the encoding of the credentials are inputs.
-/

import Purple.Proxy.Connect

namespace Purple.Proxy

open CString Decimal Memory

deriving instance DecidableEq for Received

/-- `gsize` has 64 bits. -/
def gsizeSub (left right : Nat) : Nat := (left + 2 ^ 64 - right) % 2 ^ 64

inductive Arrival where
  | bytes (first : UInt8) (more : Bytes)
  | again
  | failed (errno : Nat)
deriving DecidableEq, Repr

abbrev Socket := List Arrival

def unread (left : Bytes) (socket : Socket) : Socket :=
  match left with
  | [] => socket
  | first :: more => .bytes first more :: socket

def read (limit : Nat) : Socket → Received × Socket
  | [] => (.closed, [])
  | .again :: socket => (.again, socket)
  | .failed errno :: socket => (.failed errno, socket)
  | .bytes first more :: socket =>
    (.data ((first :: more).take limit), unread ((first :: more).drop limit) socket)

/-- `g_strrstr`: the offset of the last occurrence. -/
def strrstr (needle : Bytes) : Bytes → Option Nat
  | [] => if needle.isEmpty then some 0 else none
  | byte :: rest =>
    match strrstr needle rest with
    | some offset => some (offset + 1)
    | none => if needle.isPrefixOf (byte :: rest) then some 0 else none

/-- Where `strtol` stops. -/
def strtolEnd (text : Bytes) : Bytes :=
  let digits := (stripSign (text.dropWhile isSpace)).2
  if (scanDigits 10 none digits).isSome then
    digits.dropWhile fun byte => (digitValue 10 byte).isSome
  else text

def parseStatus (text : Bytes) : Bool × Int :=
  if ¬ ascii "HTTP/" <+: text then (true, 0)
  else
    let major := text.drop 5
    if atoi major = 0 ∨ (strtolEnd major).head? ≠ some 46 then (true, 0)
    else
      let minor := (strtolEnd major).drop 1
      if (strtolEnd minor).head? ≠ some 32 then (true, 0)
      else
        let status := (strtolEnd minor).drop 1
        ((strtolEnd status).head? ≠ some 32, atoi status)

def contentLength (text : Bytes) : Option (Option Nat) :=
  (strrstr (ascii "Content-Length: ") text).map fun offset =>
    scanUlong 10 ((text.drop (offset + 16)).takeWhile (· ≠ 13))

inductive HttpFailure where
  | message (text : String)
  | lost (errno : Nat)
  | unparsed (reply : Bytes)
  | refused (status : Int)
  | forbidden (port : Nat)
deriving DecidableEq, Repr

/-- The text that is shown; `strerror` is `g_strerror`. -/
def HttpFailure.text (strerror : Nat → Bytes) : HttpFailure → Bytes
  | .message text => ascii text
  | .lost errno => ascii "Lost connection with server: " ++ strerror errno
  | .unparsed reply => ascii "Unable to parse response from HTTP proxy: " ++ reply
  | .refused status => ascii "HTTP proxy connection error " ++ printInt status
  | .forbidden port =>
    ascii "Access denied: HTTP proxy server forbids port " ++ printInt port ++ ascii " tunneling"

inductive HttpOutcome where
  | waits (reader : Reader)
  | fails (failure : HttpFailure)
  | retries (request : Bytes)
  | connected

/-- A call: the bytes that it read into the buffer, what came of each byte that it skipped,
    and what is left in the socket. -/
structure HttpCall where
  outcome : HttpOutcome
  got : Bytes
  skipped : List Received
  socket : Socket

/-- The answers to a challenge that NTLM needs: the user without the domain, the password,
    the host, the domain and the challenge. -/
abbrev NtlmAnswer := Bytes → Option Bytes → Bytes → Bytes → Bytes → Bytes

/-- The request with NTLM, if the user has a domain; `offset` is that of the challenge. -/
def ntlmRequest (info : ProxyInfo) (answer : NtlmAnswer) (text : Bytes) (offset : Nat) :
    Option Bytes :=
  let user := info.settings.username.getD []
  if (92 : UInt8) ∉ user then none
  else
    let domain := user.takeWhile (· ≠ 92)
    let behind := text.drop (offset + 24)
    let response :=
      if behind.head? = some 32 then
        answer ((user.dropWhile (· ≠ 92)).drop 1) info.settings.password info.hostname domain
          ((behind.drop 1).takeWhile (· ≠ 13))
      else info.ntlmGenType1 info.hostname domain
    some (connectLine info ++ ascii "Proxy-Authorization: NTLM " ++ response ++
      ascii "\r\nProxy-Connection: Keep-Alive\r\n\r\n")

def basicRequest (info : ProxyInfo) : Bytes :=
  let credentials := info.settings.username.getD [] ++ ascii ":" ++ info.settings.password.getD []
  connectLine info ++ ascii "Proxy-Authorization: Basic " ++ info.base64Encode credentials ++
    ascii "\r\n"

def authRequest (info : ProxyInfo) (answer : NtlmAnswer) (text : Bytes) : Option Bytes :=
  match strrstr (ascii "Proxy-Authenticate: NTLM") text with
  | some offset => ntlmRequest info answer text offset
  | none =>
    (strrstr (ascii "Proxy-Authenticate: Basic") text).map fun _ => basicRequest info

def answerStatus (info : ProxyInfo) (answer : NtlmAnswer) (text : Bytes) : HttpOutcome :=
  let line := parseStatus text
  if line.1 then .fails (.unparsed text)
  else if line.2 = 200 then .connected
  else if line.2 = 407 then
    match authRequest info answer text with
    | some request => .retries request
    | none => .fails (.refused line.2)
  else if line.2 = 403 then .fails (.forbidden info.settings.port)
  else .fails (.refused line.2)

/-- The reads of one byte that skip what is left of a page. -/
def skip : Nat → Socket → List Received × Socket
  | 0, socket => ([], socket)
  | count + 1, socket =>
    match read 1 socket with
    | (.failed errno, socket) => ([.failed errno], socket)
    | (got, socket) => (got :: (skip count socket).1, (skip count socket).2)

/-- The text of a reply was read, and `buffered` bytes are taken for its contents. -/
def readContents (info : ProxyInfo) (answer : NtlmAnswer) (text : Bytes) (buffered : Nat)
    (got : Bytes) (socket : Socket) : HttpCall :=
  match contentLength text with
  | none => ⟨answerStatus info answer text, got, [], socket⟩
  | some none => ⟨.fails (.unparsed text), got, [], socket⟩
  | some (some length) =>
    let skipped := skip (gsizeSub length buffered) socket
    ⟨answerStatus info answer text, got, skipped.1, skipped.2⟩

/-- `got` is in the buffer, for which there was room for `maxRead` bytes. -/
def httpReply (info : ProxyInfo) (answer : NtlmAnswer) (reader : Reader) (maxRead : Nat)
    (got : Bytes) (socket : Socket) : Option HttpCall := do
  let block ← reader.readBuffer
  let block ← block.store reader.readLen [some 0]
  let received ← reader.bytesAt 0 reader.readLen
  match strstr (ascii "\r\n\r\n") (cString received) with
  | some offset =>
    let block ← block.store offset [some 0]
    let text ← blockString block
    return readContents info answer text (gsizeSub reader.readLen (offset + 4)) got socket
  | none =>
    if got.length = maxRead then
      let text ← blockString block
      return readContents info answer text (gsizeSub reader.readLen got.length) got socket
    else
      return ⟨.waits { reader with readBuffer := some block }, got, [], socket⟩

def httpCanread (info : ProxyInfo) (answer : NtlmAnswer) (reader : Reader) (socket : Socket) :
    Option HttpCall :=
  let reader := reader.allocate 8192
  let maxRead := gsizeSub (gsizeSub reader.readBufLen reader.readLen) 1
  match read maxRead socket with
  | (.closed, socket) => some ⟨.fails (.message closedText), [], [], socket⟩
  | (.again, socket) => some ⟨.waits reader, [], [], socket⟩
  | (.failed errno, socket) => some ⟨.fails (.lost errno), [], [], socket⟩
  | (.data got, socket) =>
    if got = [] then some ⟨.fails (.message closedText), [], [], socket⟩
    else
      (reader.store got).bind fun reader => httpReply info answer reader maxRead got socket

end Purple.Proxy
