/-
Reading the replies of a SOCKS5 proxy, from proxy.c.

A byte is read only from the part of the buffer that was received; any other access,
and the length of a string that is NULL, make the operation `none`.  A request that is
sent is written whole before the next reply is read.
-/

import Purple.Memory.Block

namespace Purple.Proxy

open Memory

abbrev Bytes := List UInt8

/-- What a connection through the proxy is configured with, and the MD5 digest. -/
structure Settings where
  host : Bytes
  port : Nat
  username : Option Bytes
  password : Option Bytes
  md5 : Bytes → Bytes

def byteOf (value : Nat) : UInt8 := UInt8.ofNat value

inductive ReadCb where
  | s5Canread
  | s5Readauth
  | s5Readchap
  | s5CanreadAgain
deriving DecidableEq, Repr

inductive Failure where
  | message (text : String)
  | lost (errno : Nat)
deriving DecidableEq, Repr

inductive Action where
  | sends (request : Bytes)
  | connected
  | fails (failure : Failure)
deriving DecidableEq, Repr

/-- The buffer for a reply; without one the lengths mean nothing. -/
structure Reader where
  readBuffer : Option (Block UInt8)
  readBufLen : Nat
  readLen : Nat

/-- What a callback comes to: it waits for more, acts and is over, or acts and the next
reply goes to another callback. -/
inductive Outcome where
  | waits (reader : Reader)
  | ends (action : Action)
  | sends (request : Bytes) (readCb : ReadCb)

def disconnect (text : String) : Outcome := .ends (.fails (.message text))

def closedText : String := "Server closed the connection"

def invalidText : String := "Received invalid data on connection with server"

def Reader.empty : Reader := { readBuffer := none, readBufLen := 0, readLen := 0 }

def Reader.byteAt (reader : Reader) (index : Nat) : Option UInt8 :=
  if index < reader.readLen then
    reader.readBuffer.bind fun block => block[index]?.bind id
  else none

def Reader.bytesAt (reader : Reader) (index count : Nat) : Option Bytes :=
  if index + count ≤ reader.readLen then
    (reader.readBuffer.bind fun block => block.load index count).bind fun cells => cells.mapM id
  else none

/-- What `read` returns. -/
inductive Received where
  | data (bytes : Bytes)
  | closed
  | again
  | failed (errno : Nat)

def Reader.allocate (reader : Reader) (size : Nat) : Reader :=
  match reader.readBuffer with
  | none => { readBuffer := some (List.replicate size none), readBufLen := size, readLen := 0 }
  | some _ => reader

def Reader.store (reader : Reader) (bytes : Bytes) : Option Reader :=
  reader.readBuffer.bind fun block =>
    (block.store reader.readLen (bytes.map some)).map fun block =>
      { reader with readBuffer := some block, readLen := reader.readLen + bytes.length }

/-- The part that every callback starts with: a buffer, a `read`, and its errors. -/
def receive (size : Nat) (reader : Reader) (received : Received) (parse : Reader → Option Outcome) :
    Option Outcome :=
  let reader := reader.allocate size
  match received with
  | .data bytes => (reader.store bytes).bind parse
  | .closed => some (disconnect closedText)
  | .again => some (.waits reader)
  | .failed errno => some (.ends (.fails (.lost errno)))

def connectRequest (settings : Settings) : Bytes :=
  [5, 1, 0, 3, byteOf settings.host.length] ++ settings.host ++
    [byteOf (settings.port / 256), byteOf settings.port]

def s5Sendconnect (settings : Settings) : Outcome :=
  .sends (connectRequest settings) .s5CanreadAgain

def passwordRequest (settings : Settings) : Bytes :=
  let u := settings.username.getD []
  let p := settings.password.getD []
  [1, byteOf u.length] ++ u ++ [byteOf p.length] ++ p

def chapRequest (username : Bytes) : Bytes :=
  [1, 2, 17, 1, 133, 2, byteOf username.length] ++ username

def hmacmd5Chap (md5 : Bytes → Bytes) (challenge passwd : Bytes) : Bytes :=
  let key := if 64 < passwd.length then (md5 passwd).take 16 else passwd
  let padded := key ++ List.replicate (64 - key.length) 0
  (md5 (padded.map (· ^^^ 92) ++ (md5 (padded.map (· ^^^ 54) ++ challenge)).take 16)).take 16

def chooseMethod (settings : Settings) (version method : UInt8) : Option Outcome :=
  if version ≠ 5 ∨ method = 255 then some (disconnect invalidText)
  else if method = 2 then some (.sends (passwordRequest settings) .s5Readauth)
  else if method = 3 then
    settings.username.map fun username => .sends (chapRequest username) .s5Readchap
  else some (s5Sendconnect settings)

def parseMethod (settings : Settings) (reader : Reader) : Option Outcome :=
  if reader.readLen < 2 then some (.waits reader)
  else do
    let version ← reader.byteAt 0
    let method ← reader.byteAt 1
    chooseMethod settings version method

def s5Canread (settings : Settings) (reader : Reader) (received : Received) : Option Outcome :=
  receive 2 reader received (parseMethod settings)

def checkAuth (settings : Settings) (version status : UInt8) : Outcome :=
  if version ≠ 1 ∨ status ≠ 0 then disconnect invalidText else s5Sendconnect settings

def parseAuth (settings : Settings) (reader : Reader) : Option Outcome :=
  if reader.readLen < 2 then some (.waits reader)
  else do
    let version ← reader.byteAt 0
    let status ← reader.byteAt 1
    return checkAuth settings version status

def s5Readauth (settings : Settings) (reader : Reader) (received : Received) : Option Outcome :=
  receive 2 reader received (parseAuth settings)

/-- What a CHAP attribute comes to: the next one is read, or the callback is over. -/
def chapAttribute (settings : Settings) (kind : UInt8) (value : Bytes) : Option (Option Outcome) :=
  if kind = 0 then
    if value.head? = some 0 then some (some (s5Sendconnect settings))
    else some (some (disconnect "Authentication failed"))
  else if kind = 3 then
    settings.password.map fun passwd =>
      some (.sends ([1, 1, 4, 16] ++ hmacmd5Chap settings.md5 value passwd) .s5Readchap)
  else if kind = 17 then
    if value.head? = some 133 then some none else some (some (disconnect invalidText))
  else some none

/-- What `s5_parse_chap_msg` comes to: the bytes it processed, or -1. -/
inductive ChapResult where
  | processed (count : Nat)
  | stops (outcome : Outcome)

/-- The attributes that are left are moved to the place of the first one. -/
def compactChap (reader : Reader) (left cmdbuf : Nat) : Option Reader := do
  let block ← reader.readBuffer
  let block ← block.store 1 [some (byteOf left)]
  let rest ← block.load cmdbuf (reader.readLen - cmdbuf)
  let block ← block.store 2 rest
  return { reader with readBuffer := some block, readLen := reader.readLen - cmdbuf + 2 }

def chapAttributes (settings : Settings) (reader : Reader) : Nat → Nat → Option ChapResult
  | 0, cmdbuf => some (.processed cmdbuf)
  | left + 1, cmdbuf =>
    let moreNeeded := (compactChap reader (left + 1) cmdbuf).map fun reader =>
      ChapResult.stops (.waits reader)
    if reader.readLen - cmdbuf < 2 then moreNeeded
    else do
      let kind ← reader.byteAt cmdbuf
      let length ← reader.byteAt (cmdbuf + 1)
      if reader.readLen - cmdbuf < length.toNat + 2 then moreNeeded
      else if length = 0 then chapAttributes settings reader left (cmdbuf + 2)
      else
        let value ← reader.bytesAt (cmdbuf + 2) length.toNat
        let stopped ← chapAttribute settings kind value
        match stopped with
        | some outcome => return .stops outcome
        | none => chapAttributes settings reader left (cmdbuf + 2 + length.toNat)

def s5ParseChapMsg (settings : Settings) (reader : Reader) : Option ChapResult := do
  let version ← reader.byteAt 0
  if version ≠ 1 then return .stops (disconnect invalidText)
  else
    let navas ← reader.byteAt 1
    chapAttributes settings reader navas.toNat 2

/-- The messages in the buffer, one after the other; each has two bytes at least. -/
def chapMessages (settings : Settings) : Nat → Reader → Option Outcome
  | 0, _ => none
  | rounds + 1, reader =>
    if reader.readLen < 2 then some (.waits reader)
    else do
      let result ← s5ParseChapMsg settings reader
      match result with
      | .stops outcome => return outcome
      | .processed count =>
        if 0 < reader.readLen - count then
          let block ← reader.readBuffer
          let rest ← block.load count (reader.readLen - count)
          let block ← block.store 0 rest
          chapMessages settings rounds
            { reader with readBuffer := some block, readLen := reader.readLen - count }
        else return .waits { reader with readBuffer := none }

def s5Readchap (settings : Settings) (reader : Reader) (received : Received) : Option Outcome :=
  receive 259 reader received fun reader => chapMessages settings (reader.readLen + 1) reader

def socks5errors : List String :=
  ["succeeded\n", "general SOCKS server failure\n", "connection not allowed by ruleset\n",
    "Network unreachable\n", "Host unreachable\n", "Connection refused\n", "TTL expired\n",
    "Command not supported\n", "Address type not supported\n"]

def Reader.realloc (reader : Reader) (len : Nat) : Reader :=
  { reader with
    readBufLen := len
    readBuffer := reader.readBuffer.map fun block => block.realloc len }

/-- `s5_ensure_buffer_length`: the reader if it has to wait. -/
def s5EnsureBufferLength (reader : Reader) (len : Nat) : Option Reader :=
  if reader.readLen < len then
    if reader.readBufLen < len then some (reader.realloc len) else some reader
  else none

/-- The bytes up to so many, or else the reader waits. -/
def ensured (reader : Reader) (len : Nat) (parse : Option Outcome) : Option Outcome :=
  match s5EnsureBufferLength reader len with
  | some reader => some (.waits reader)
  | none => parse

def parsePort (reader : Reader) (address : Nat) : Option Outcome :=
  ensured reader (address + 2) (some (.ends .connected))

def refusal (version status : UInt8) : Option Outcome :=
  if version = 5 ∧ status < 9 then socks5errors[status.toNat]?.map disconnect
  else some (disconnect invalidText)

def parseReply (reader : Reader) : Option Outcome :=
  if reader.readLen < 4 then some (.waits reader)
  else do
    let version ← reader.byteAt 0
    let status ← reader.byteAt 1
    if version ≠ 5 ∨ status ≠ 0 then refusal version status
    else
      let kind ← reader.byteAt 3
      if kind = 1 then ensured reader 8 (parsePort reader 8)
      else if kind = 3 then
        ensured reader 5 do
          let length ← reader.byteAt 4
          ensured reader (5 + length.toNat) (parsePort reader (5 + length.toNat))
      else if kind = 4 then ensured reader 20 (parsePort reader 20)
      else return disconnect invalidText

def s5CanreadAgain (reader : Reader) (received : Received) : Option Outcome :=
  receive 5 reader received parseReply

/-- `socket` is what the proxy has sent and was not read, `consumed` what was read. -/
structure Connection where
  readCb : Option ReadCb
  reader : Reader
  socket : Bytes
  consumed : Bytes
  actions : List Action

def readSize : ReadCb → Nat
  | .s5Canread => 2
  | .s5Readauth => 2
  | .s5Readchap => 259
  | .s5CanreadAgain => 5

def callback (settings : Settings) : ReadCb → Reader → Received → Option Outcome
  | .s5Canread => s5Canread settings
  | .s5Readauth => s5Readauth settings
  | .s5Readchap => s5Readchap settings
  | .s5CanreadAgain => s5CanreadAgain

/-- The room that `read` is given. -/
def room (readCb : ReadCb) (reader : Reader) : Nat :=
  let reader := reader.allocate (readSize readCb)
  reader.readBufLen - reader.readLen

def finishCallback (connection : Connection) : Outcome → Connection
  | .waits reader => { connection with reader }
  | .ends action =>
    { connection with readCb := none, actions := connection.actions ++ [action] }
  | .sends request readCb =>
    { connection with
      readCb := some readCb
      reader := .empty
      actions := connection.actions ++ [.sends request] }

/-- What `read` takes when there are so many bytes in the socket, but one. -/
def taken (connection : Connection) (readCb : ReadCb) (count : Nat) : Bytes :=
  connection.socket.take (min (count + 1) (room readCb connection.reader))

/-- What `read` returns; without room it returns 0. -/
def readReturns (readCb : ReadCb) (reader : Reader) (bytes : Bytes) : Received :=
  if room readCb reader = 0 then .closed
  else if bytes = [] then .again
  else .data bytes

def readStep (settings : Settings) (connection : Connection) (count : Nat) : Option Connection :=
  match connection.readCb with
  | none => some connection
  | some readCb =>
    let bytes := taken connection readCb count
    (callback settings readCb connection.reader
      (readReturns readCb connection.reader bytes)).map
        (finishCallback { connection with
          socket := connection.socket.drop bytes.length
          consumed := connection.consumed ++ bytes })

def Connection.start (stream : Bytes) : Connection :=
  { readCb := some .s5Canread, reader := .empty, socket := stream, consumed := [], actions := [] }

end Purple.Proxy
