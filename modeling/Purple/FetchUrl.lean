/-
Reading an HTTP response: `url_fetch_recv_cb` of util.c and the header parsers
it calls, over an explicit block for `gfud->webdata`.

The socket is a sequence of read results.  `read` and `purple_ssl_read` behave
alike here.  What the code only hands to other parts (the parsed address of a
redirect, whether a connection attempt starts, whether memory can be had) comes
from an environment.
-/

import Purple.CString
import Purple.PartialRun

namespace Purple.FetchUrl

open Memory CString

def maxHttpChunkSize : Nat := 10 * 1024 * 1024

def defaultMaxHttpDownload : Nat := 512 * 1024

/-! ### Header parsers

`data` is the C string in `webdata`; `dataLen` bytes of it are the header block. -/

def findHeaderContent (data : List UInt8) (dataLen : Nat) (header : List UInt8) : Option Nat :=
  let start :=
    if header.length < dataLen then
      -- the first header has no line feed before it
      if header.head? = some 10 ∧ strncasecmpEq data header.tail (header.length - 1) then some 0
      else strcasestr header (data.take dataLen)
    else none
  (start.map (· + header.length)).filter fun content =>
    (strstr (ascii "\n") ((data.take dataLen).drop content)).isSome

def parseContentLen (data : List UInt8) (dataLen : Nat) : Nat :=
  match findHeaderContent data dataLen (ascii "\nContent-Length: ") with
  | some content => (scanUlong 10 (data.drop content)).getD 0
  | none => 0

def contentIsChunked (data : List UInt8) (dataLen : Nat) : Bool :=
  match findHeaderContent data dataLen (ascii "\nTransfer-Encoding: ") with
  | some content => strncasecmpEq (data.drop content) (ascii "chunked") 7
  | none => false

/-- The location `parse_redirect` reads; `none` means there is no redirect. -/
def redirectLocation (data : List UInt8) (dataLen : Nat) : Option (List UInt8) :=
  match strstr (ascii "\nLocation: ") (data.take dataLen) with
  | none => none
  | some offset =>
    -- `s` skips the length of "Location: ", one less than what was found
    let value := data.drop (offset + 10)
    match strstr (ascii "\r") value with
    | some length => some (value.take length)
    | none => (strstr (ascii "\n") value).map fun length => value.take length

/-- `process_chunked_data` from the read pointer on; `rest` are the bytes before
the terminator.  A chunk is moved to a place at or before the one it is read
from, so the bytes still to read are never overwritten and the result is what
has been moved.  One read falls behind the terminator, after a lone carriage
return at the very end: no chunk can follow there, so it ends the loop. -/
def chunkLoop : Nat → List UInt8 → List UInt8
  | 0, _ => []
  | rounds + 1, rest =>
    let text := cString rest
    if text.isEmpty then [] else
    match scanUlong 16 text, strstr (ascii "\r\n") text with
    | some size, some lineEnd =>
      let body := rest.drop (lineEnd + 2)
      if size = 0 ∨ maxHttpChunkSize < size ∨ body.length < size then []
      else
        let after := body.drop size
        if after.headD 0 = 0 ∨ (after.headD 0 ≠ 13 ∧ after.tail.headD 0 ≠ 10) then
          body.take size
        else body.take size ++ chunkLoop rounds (after.drop 2)
    | _, _ => []

/-- Every round consumes bytes, so `data.length` rounds reach the end. -/
def processChunkedData (data : List UInt8) : List UInt8 := chunkLoop (data.length + 1) data

structure Website where
  address : List UInt8
  port : Int
deriving DecidableEq

inductive Argument where
  | text (bytes : List UInt8)
  | number (value : Int)
deriving DecidableEq

/-- The format and arguments of `purple_util_fetch_url_error`. -/
structure ErrorMessage where
  format : String
  arguments : List Argument
deriving DecidableEq

/-- One call of the callback: the text with its length, or an error message. -/
inductive Outcome where
  | contents (urlText : List (Option UInt8))
  | error (message : ErrorMessage)
deriving DecidableEq

structure PurpleUtilFetchUrlData where
  url : List UInt8
  numTimesRedirected : Nat
  full : Bool
  isSsl : Bool
  website : Website
  includeHeaders : Bool
  gotHeaders : Bool
  hasExplicitDataLen : Bool
  webdata : Block UInt8
  len : Nat
  dataLen : Nat
  maxLen : Nat
  chunked : Bool
deriving DecidableEq

/-- What the code leaves to the rest of the library and the system. -/
structure Environment where
  urlParse : List UInt8 → Website
  sslConnects : Website → Bool
  proxyConnects : Website → Bool
  canAlloc : Nat → Bool
  decimal : Int → List UInt8

/-- `purple_util_fetch_url_request_data_len_with_account`, once connected. -/
def fetchUrlRequest (env : Environment) (url : List UInt8) (full includeHeaders : Bool)
    (maxLen : Int) : PurpleUtilFetchUrlData :=
  { url
    numTimesRedirected := 0
    full
    isSsl := (strcasestr (ascii "https://") url).isSome
    website := env.urlParse url
    includeHeaders
    gotHeaders := false
    hasExplicitDataLen := false
    webdata := []
    len := 0
    dataLen := 0
    maxLen := if maxLen ≤ 0 then defaultMaxHttpDownload else maxLen.toNat
    chunked := false }

inductive Progress where
  | waiting (gfud : PurpleUtilFetchUrlData)
  | done (outcome : Outcome)
deriving DecidableEq

def fetchUrlError (format : String) (arguments : List Argument) : Progress :=
  .done (.error { format, arguments })

/-- `parse_redirect` after the location has been read: the same request is
reused on a new connection, with the old allocation still in `webdata`. -/
def followRedirect (env : Environment) (gfud : PurpleUtilFetchUrlData)
    (location : List UInt8) : Progress :=
  let relative := location.head? = some 47 ∨ strstr (ascii "://") location = none
  let newUrl :=
    if relative then
      gfud.website.address ++ ascii ":" ++ env.decimal gfud.website.port ++ location
    else location
  if 5 ≤ gfud.numTimesRedirected + 1 then
    fetchUrlError "Could not open %s: Redirected too many times" [.text gfud.url]
  else
    let website := env.urlParse newUrl
    let isSsl := (strcasestr (ascii "https://") newUrl).isSome
    if (if isSsl then env.sslConnects website else env.proxyConnects website) then
      .waiting { gfud with
        url := newUrl
        numTimesRedirected := gfud.numTimesRedirected + 1
        full := if relative then false else gfud.full
        isSsl
        website
        len := 0
        dataLen := 0 }
    else
      fetchUrlError "Unable to connect to %s" [.text website.address]

/-- `while((gfud->len + len) >= gfud->data_len) gfud->data_len += sizeof(buf);`
Every round adds 4096, so `needed + 1` rounds pass `needed`. -/
def growDataLen (needed : Nat) : Nat → Nat → Nat
  | 0, dataLen => dataLen
  | rounds + 1, dataLen =>
    if dataLen ≤ needed then growDataLen needed rounds (dataLen + 4096) else dataLen

def tooLongFormat : String := "Error reading from %s: response too long (%d bytes limit)"

def noMemoryFormat : String :=
  "Unable to allocate enough memory to hold the contents from %s.  The web server may be trying something malicious."

def readErrorFormat : String := "Error reading from %s: %s"

/-- Append one read to `webdata` and terminate it. -/
def storeRead (gfud : PurpleUtilFetchUrlData) (buf : List UInt8) :
    Option PurpleUtilFetchUrlData := do
  let len := gfud.len + buf.length
  let dataLen := growDataLen len (len + 1) gfud.dataLen
  let webdata := if gfud.dataLen ≤ len then gfud.webdata.realloc dataLen else gfud.webdata
  let webdata ← webdata.store gfud.len (buf.map some)
  let webdata ← webdata.store len [some 0]
  return { gfud with webdata, len, dataLen }

/-- `content_len` after the parse: 8192 when there is none, else at most `max_len`. -/
def contentLen (gfud : PurpleUtilFetchUrlData) (text : List UInt8) (headerLen : Nat) : Nat :=
  let parsed := parseContentLen text headerLen
  if parsed = 0 then 8192 else min parsed gfud.maxLen

def withHeaders (gfud : PurpleUtilFetchUrlData) (text : List UInt8) (headerLen : Nat) :
    PurpleUtilFetchUrlData :=
  { gfud with
    gotHeaders := true
    chunked := contentIsChunked text headerLen
    hasExplicitDataLen :=
      if parseContentLen text headerLen = 0 then gfud.hasExplicitDataLen else true }

def takeHeaders (env : Environment) (gfud : PurpleUtilFetchUrlData) (text : List UInt8)
    (headersEnd : Nat) : Option Progress := do
  -- `header_len` is a `guint`
  let headerLen := (headersEnd + 4) % 2 ^ 32
  let contentLen := contentLen gfud text headerLen
  let gfud := withHeaders gfud text headerLen
  if gfud.includeHeaders then
    let dataLen := contentLen + headerLen
    if env.canAlloc dataLen then
      return .waiting { gfud with dataLen, webdata := gfud.webdata.realloc dataLen }
    else return fetchUrlError noMemoryFormat [.text gfud.website.address]
  else
    let bodyLen := gfud.len - headerLen
    let contentLen := max contentLen bodyLen
    if env.canAlloc contentLen then
      let body ← gfud.webdata.load (headersEnd + 4) bodyLen
      let newData ← (Block.realloc [] contentLen).store 0 body
      return .waiting { gfud with len := bodyLen, dataLen := contentLen, webdata := newData }
    else return fetchUrlError noMemoryFormat [.text gfud.website.address]

def allWritten : List (Option UInt8) → Option (List UInt8)
  | [] => some []
  | none :: _ => none
  | some byte :: rest => (allWritten rest).map (byte :: ·)

def finishFetch (gfud : PurpleUtilFetchUrlData) : Option Progress := do
  let webdata ← (gfud.webdata.realloc (gfud.len + 1)).store gfud.len [some 0]
  let text ← webdata.load 0 gfud.len
  if !gfud.includeHeaders && gfud.chunked then
    let bytes ← allWritten text
    return .done (.contents ((processChunkedData bytes).map some))
  else return .done (.contents text)

def checkExplicitLen (gfud : PurpleUtilFetchUrlData) : Option Progress :=
  if gfud.hasExplicitDataLen ∧ gfud.dataLen ≤ gfud.len then finishFetch gfud
  else some (.waiting gfud)

def recvBytes (env : Environment) (gfud : PurpleUtilFetchUrlData) (buf : List UInt8) :
    Option Progress :=
  if gfud.maxLen < gfud.len + buf.length then
    some (fetchUrlError tooLongFormat [.text gfud.website.address, .number gfud.maxLen])
  else do
    let gfud ← storeRead gfud buf
    if gfud.gotHeaders then checkExplicitLen gfud
    else
      let text ← blockString gfud.webdata
      match strstr (ascii "\r\n\r\n") text with
      | none => checkExplicitLen gfud
      | some headersEnd =>
        match redirectLocation text ((headersEnd + 4) % 2 ^ 32) with
        | some location => return followRedirect env gfud location
        | none =>
          match ← takeHeaders env gfud text headersEnd with
          | .waiting gfud => checkExplicitLen gfud
          | .done outcome => return .done outcome

/-- What one `read` into `char buf[4096]` can return when it is positive. -/
structure ReadBuffer where
  data : List UInt8
  nonempty : data ≠ []
  fits : data.length ≤ 4096

inductive ReadResult where
  | bytes (buf : ReadBuffer)
  | eof
  | again
  | failed (strerror : List UInt8)

/-- `url_fetch_recv_cb`, one read at a time: after `EAGAIN` the callback
returns and is entered again with the request unchanged. -/
def urlFetchRecv (env : Environment) : Progress → ReadResult → Option Progress
  | .done outcome, _ => some (.done outcome)
  | .waiting gfud, .bytes buf => recvBytes env gfud buf.data
  | .waiting gfud, .eof => finishFetch gfud
  | .waiting gfud, .again => some (.waiting gfud)
  | .waiting gfud, .failed strerror =>
    some (fetchUrlError readErrorFormat [.text gfud.website.address, .text strerror])

end Purple.FetchUrl
