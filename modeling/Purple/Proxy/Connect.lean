/-
Connecting through a proxy, from proxy.c: the requests of a handshake and how they are
written.

What the reply handlers of an HTTP and of a SOCKS4 proxy make of a reply is an input;
those of a SOCKS5 proxy are the callbacks that read its replies.  A write from outside
the buffer makes the operation `none`.
-/

import Purple.Decimal
import Purple.PartialRun
import Purple.Proxy.Socks5

namespace Purple.Proxy

open CString Decimal

inductive ProxyType where
  | http
  | socks4
  | socks5
deriving DecidableEq, Repr

/-- How a connection is made.  `remoteDns` is the preference for SOCKS4; the encodings of
the credentials for HTTP are those of util.c and ntlm.c. -/
structure ProxyInfo where
  type : ProxyType
  settings : Settings
  remoteDns : Bool
  hostname : Bytes
  base64Encode : Bytes → Bytes
  ntlmGenType1 : Bytes → Bytes → Bytes

inductive ReplyCb where
  | httpCanread
  | s4Canread
  | s5 (readCb : ReadCb)
deriving DecidableEq, Repr

/-- The function that is called next, at once or when the socket is ready. -/
inductive Doing where
  | tryConnect
  | canwrite
  | proxyDoWrite
  | readCb
  | dnsquery
  | hostResolved
  | done (connected : Bool)
deriving DecidableEq, Repr

structure Handed where
  request : Bytes
  accepted : Bytes
deriving DecidableEq, Repr

/-- `log` are the requests of all attempts, the newest first. -/
structure ConnectData where
  hosts : Nat
  doing : Doing
  writeBuffer : Option Bytes
  writeBufLen : Nat
  writtenLen : Nat
  readCb : ReplyCb
  reader : Reader
  log : List Handed

def connectLine (info : ProxyInfo) : Bytes :=
  let target := info.settings.host ++ ascii ":" ++ printInt info.settings.port
  ascii "CONNECT " ++ target ++ ascii " HTTP/1.1\r\nHost: " ++ target ++ ascii "\r\n"

/-- `http_start_connect_tunneling` -/
def tunnelRequest (info : ProxyInfo) : Bytes :=
  let authorization := info.settings.username.elim [] fun username =>
    let credentials := username ++ ascii ":" ++ info.settings.password.getD []
    ascii "Proxy-Authorization: Basic " ++ info.base64Encode credentials ++
      ascii "\r\nProxy-Authorization: NTLM " ++ info.ntlmGenType1 info.hostname [] ++
      ascii "\r\nProxy-Connection: Keep-Alive\r\n"
  connectLine info ++ authorization ++ ascii "\r\n"

def portBytes (settings : Settings) : Bytes := [byteOf (settings.port / 256), byteOf settings.port]

/-- `s4_canwrite`, where the proxy resolves the host. -/
def remoteRequest (settings : Settings) : Bytes :=
  [4, 1] ++ portBytes settings ++ [0, 0, 0, 1, 0] ++ settings.host ++ [0]

/-- `s4_host_resolved` -/
def addressRequest (settings : Settings) (address : Bytes) : Bytes :=
  [4, 1] ++ portBytes settings ++ address ++ [0]

def greeting (settings : Settings) : Bytes :=
  if settings.username.isSome then [5, 3, 0, 3, 2] else [5, 1, 0]

/-- A request is put in the buffer, and `proxy_do_write` is called. -/
def install (data : ConnectData) (request : Bytes) (readCb : ReplyCb) : ConnectData :=
  { data with
    doing := .proxyDoWrite
    writeBuffer := some request
    writeBufLen := request.length
    readCb
    log := ⟨request, []⟩ :: data.log }

def sendRequest (data : ConnectData) (request : Bytes) (readCb : ReplyCb) : ConnectData :=
  install { data with writtenLen := 0, reader := .empty } request readCb

/-- `purple_proxy_connect_data_disconnect` with an error: the next address, if there is
one. -/
def disconnectData (data : ConnectData) : ConnectData :=
  { data with
    doing := if data.hosts = 0 then .done false else .tryConnect
    writeBuffer := none
    reader := .empty }

/-- `purple_proxy_connect_data_connected`, and what destroys a connection. -/
def destroyData (data : ConnectData) (connected : Bool) : ConnectData :=
  { data with doing := .done connected, writeBuffer := none, reader := .empty }

/-- What `socket` and `connect` come to. -/
inductive Connects where
  | noSocket
  | refused
  | inProgress
  | immediately
deriving DecidableEq, Repr

def tryConnect (data : ConnectData) (connects : Connects) : ConnectData :=
  let data := { data with hosts := data.hosts - 1 }
  match connects with
  | .noSocket => disconnectData data
  | .refused => disconnectData data
  | .inProgress => { data with doing := .canwrite }
  | .immediately => { data with doing := .canwrite }

def httpCanwrite (info : ProxyInfo) (data : ConnectData) : ConnectData :=
  if info.settings.port = 80 then destroyData data true
  else sendRequest data (tunnelRequest info) .httpCanread

def s4Canwrite (info : ProxyInfo) (data : ConnectData) : ConnectData :=
  if info.remoteDns then sendRequest data (remoteRequest info.settings) .s4Canread
  else { data with doing := .dnsquery }

def s5Canwrite (info : ProxyInfo) (data : ConnectData) : ConnectData :=
  install data (greeting info.settings) (.s5 .s5Canread)

/-- The function of the proxy's type, with the error of the socket. -/
def canwrite (info : ProxyInfo) (data : ConnectData) (error : Bool) : ConnectData :=
  if error then disconnectData data
  else
    match info.type with
    | .http => httpCanwrite info data
    | .socks4 => s4Canwrite info data
    | .socks5 => s5Canwrite info data

def s4HostResolved (info : ProxyInfo) (data : ConnectData) (address : Option Bytes) : ConnectData :=
  address.elim (disconnectData data) fun address =>
    sendRequest data (addressRequest info.settings address) .s4Canread

inductive Errno where
  | again
  | other
deriving DecidableEq, Repr

/-- What `write` returns, with the `errno` that is found behind it. -/
inductive Wrote where
  | took (count : Nat) (errno : Errno)
  | refused (errno : Errno)
deriving DecidableEq, Repr

def Wrote.errno : Wrote → Errno
  | .took _ errno => errno
  | .refused errno => errno

def Wrote.ret (len : Nat) : Wrote → Int
  | .took count _ => (min count len : Nat)
  | .refused _ => -1

def accept (log : List Handed) (bytes : Bytes) : List Handed :=
  match log with
  | [] => []
  | handed :: older => { handed with accepted := handed.accepted ++ bytes } :: older

def proxyDoWrite (data : ConnectData) (wrote : Wrote) : Option ConnectData :=
  data.writeBuffer.bind fun writeBuffer =>
    if data.writeBufLen < data.writtenLen then none
    else
      let request := writeBuffer.drop data.writtenLen
      let ret := wrote.ret request.length
      if ret ≤ 0 then
        if wrote.errno = .again then some data else some (disconnectData data)
      else
        let log := accept data.log (request.take ret.toNat)
        if ret < request.length then
          some { data with writtenLen := data.writtenLen + ret.toNat, log }
        else some { data with doing := .readCb, writeBuffer := none, log }

/-- What a reply handler of an HTTP or SOCKS4 proxy comes to.  Only that of an HTTP proxy
sends another request, with credentials for what the proxy has asked. -/
inductive Reply where
  | waits
  | fails
  | connected
  | authenticates (request : Bytes)

def finishReply (data : ConnectData) : Reply → ConnectData
  | .waits => data
  | .fails => disconnectData data
  | .connected => destroyData data true
  | .authenticates request =>
    if data.readCb = .httpCanread then sendRequest data request .httpCanread else data

def finishOutcome (data : ConnectData) : Outcome → ConnectData
  | .waits reader => { data with reader }
  | .ends (.fails _) => disconnectData data
  | .ends _ => destroyData data true
  | .sends request readCb => sendRequest data request (.s5 readCb)

inductive Event where
  | connects (connects : Connects)
  | canwrite (error : Bool)
  | dnsquery (started : Bool)
  | hostResolved (address : Option Bytes)
  | writes (wrote : Wrote)
  | replies (reply : Reply)
  | receives (received : Received)
  | cancel

def step (info : ProxyInfo) (data : ConnectData) (event : Event) : Option ConnectData :=
  match data.doing, event with
  | .tryConnect, .connects connects => some (tryConnect data connects)
  | .canwrite, .canwrite error => some (canwrite info data error)
  | .dnsquery, .dnsquery started =>
    some (if started then { data with doing := .hostResolved } else destroyData data false)
  | .hostResolved, .hostResolved address => some (s4HostResolved info data address)
  | .proxyDoWrite, .writes wrote => proxyDoWrite data wrote
  | .readCb, .replies reply =>
    match data.readCb with
    | .s5 _ => some data
    | _ => some (finishReply data reply)
  | .readCb, .receives received =>
    match data.readCb with
    | .s5 readCb =>
      (callback info.settings readCb data.reader received).map (finishOutcome data)
    | _ => some data
  | .done _, .cancel => some data
  | _, .cancel => some (destroyData data false)
  | _, _ => some data

/-- A connection whose host has been resolved to so many addresses, but one. -/
def ConnectData.start (addresses : Nat) : ConnectData :=
  { hosts := addresses + 1
    doing := .tryConnect
    writeBuffer := none
    writeBufLen := 0
    writtenLen := 0
    readCb := .httpCanread
    reader := .empty
    log := [] }

end Purple.Proxy
