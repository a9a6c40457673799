/-
Chunked data of the MXit protocol: the parsers of chunk.c.

The bytes behind the read position stand for the position.  `none` is a read outside the
buffer, a write outside a field of the result, or a loop that comes back to where it was.
-/

import Purple.Endian
import Purple.Mxit.Queue

namespace Purple.Mxit

open CString Endian

def zeros (count : Nat) : Bytes := List.replicate count 0

def getInt8 : Bytes → UInt8 × Bytes
  | [] => (0, [])
  | value :: rest => (value, rest)

/-- A number of `width` bytes; where there are fewer none is taken and the value stays zero. -/
def getInt (width : Nat) (rest : Bytes) : Nat × Bytes :=
  if rest.length < width then (0, rest) else (bigValue (rest.take width), rest.drop width)

def getInt16 (rest : Bytes) : Nat × Bytes := getInt 2 rest

def getInt32 (rest : Bytes) : Nat × Bytes := getInt 4 rest

def store (field : Bytes) (at_ : Nat) (data : Bytes) : Option Bytes :=
  if at_ + data.length ≤ field.length then
    some (field.take at_ ++ (data ++ field.drop (at_ + data.length)))
  else none

def getData (rest field : Bytes) (datalen : Nat) : Option (Bytes × Bytes) :=
  if rest.length < datalen then some (field, rest)
  else (store field 0 (rest.take datalen)).map fun field => (field, rest.drop datalen)

/-- The size of the field is `maxstrlen`. -/
def getUtf8String (rest field : Bytes) : Option (Bytes × Bytes) :=
  let announced := (getInt16 rest).1
  let tail := (getInt16 rest).2
  if tail.length < announced then some (field, rest)
  else
    let len := if field.length < announced then field.length else announced
    (getData tail field len).bind fun copied =>
      (store copied.1 len [0]).map fun field => (field, tail.drop announced)

/-- `mxit_strip_domain` -/
def mxitStripDomain (username : Bytes) : Option Bytes :=
  if 0 ∈ username then
    if ascii "@m" <:+ cString username then store username ((cString username).length - 2) [0]
    else some username
  else none

structure OfferfileChunk where
  fileid : Bytes
  username : Bytes
  filesize : Nat
  filename : Bytes
  mimetype : Bytes
deriving DecidableEq, Repr

/-- `filenameMax` is `FILENAME_MAX`. -/
def mxitChunkParseOffer (filenameMax : Nat) (chunkdata : Bytes) : Option (Bool × OfferfileChunk) :=
  (getData chunkdata (zeros 8) 8).bind fun fileid =>
    (getUtf8String fileid.2 (zeros 65)).bind fun username =>
      (mxitStripDomain username.1).bind fun stripped =>
        let filesize := getInt32 username.2
        (getUtf8String filesize.2 (zeros filenameMax)).bind fun filename =>
          (getUtf8String filename.2 (zeros 64)).map fun mimetype =>
            (true, ⟨fileid.1, stripped, filesize.1, filename.1, mimetype.1⟩)

/-- `data` is a place in the buffer. -/
structure GetfileChunk where
  fileid : Bytes
  offset : Nat
  length : Nat
  crc : Nat
  data : Option Nat
deriving DecidableEq, Repr

def mxitChunkParseGet (chunkdata : Bytes) : Option (Bool × GetfileChunk) :=
  if chunkdata.length < 20 then some (false, ⟨zeros 8, 0, 0, 0, none⟩)
  else
    (getData chunkdata (zeros 8) 8).map fun fileid =>
      let offset := getInt32 fileid.2
      let length := getInt32 offset.2
      let crc := getInt32 length.2
      let pos := chunkdata.length - crc.2.length
      if chunkdata.length - pos < length.1 then
        (false, ⟨fileid.1, offset.1, length.1, crc.1, none⟩)
      else
        (true, ⟨fileid.1, offset.1, length.1, crc.1, if 0 < length.1 then some pos else none⟩)

structure SplashChunk where
  anchor : UInt8
  showtime : UInt8
  bgcolor : Nat
  data : Option Nat
  datalen : Nat
deriving DecidableEq, Repr

/-- The chunk starts at `start` in the buffer; `datalen` is an `unsigned int`. -/
def mxitChunkParseSplash (start : Nat) (chunkdata : Bytes) : Bool × SplashChunk :=
  if chunkdata.length < 6 then (false, ⟨0, 0, 0, none, 0⟩)
  else
    let anchor := getInt8 chunkdata
    let showtime := getInt8 anchor.2
    let bgcolor := getInt32 showtime.2
    let pos := chunkdata.length - bgcolor.2.length
    (true, ⟨anchor.1, showtime.1, bgcolor.1,
      if pos < chunkdata.length then some (start + pos) else none,
      (chunkdata.length - pos) % 2 ^ 32⟩)

inductive Resource where
  | splash (chunk : SplashChunk)
  | click
deriving DecidableEq, Repr

def chunkHeaderSize : Nat := 5

def chunkType (chunkdata : Bytes) (pos : Nat) : UInt8 := (chunkdata.drop pos).headD 0

def chunkLength (chunkdata : Bytes) (pos : Nat) : Nat :=
  bigValue ((chunkdata.drop (pos + 1)).take 4)

/-- The resource that a chunk is, which lies in the buffer with its header. -/
def resourceAt (chunkdata : Bytes) (pos : Nat) : List Resource :=
  if chunkType chunkdata pos = 2 then
    let data := (chunkdata.drop (pos + chunkHeaderSize)).take (chunkLength chunkdata pos)
    let parsed := mxitChunkParseSplash (pos + chunkHeaderSize) data
    if parsed.1 then [.splash parsed.2] else []
  else if chunkType chunkdata pos = 3 then [.click]
  else []

/-- What `pos` and `chunkslen`, an `unsigned int`, are changed by. -/
def chunkStep (chunkdata : Bytes) (pos : Nat) : Nat :=
  (chunkHeaderSize + chunkLength chunkdata pos) % 2 ^ 32

def chunksLeft (chunkslen step : Nat) : Nat := (chunkslen + 2 ^ 32 - step) % 2 ^ 32

/-- The loop over the resources, which comes back to a chunk that takes no step. -/
def crLoop (chunkdata : Bytes) (pos chunkslen : Nat) : Option (Bool × List Resource) :=
  if chunkslen < chunkHeaderSize then some (true, [])
  else if chunkdata.length < pos + chunkHeaderSize then none
  else if chunkdata.length < pos + chunkHeaderSize + chunkLength chunkdata pos then some (false, [])
  else if chunkStep chunkdata pos = 0 then none
  else
    (crLoop chunkdata (pos + chunkStep chunkdata pos)
      (chunksLeft chunkslen (chunkStep chunkdata pos))).map fun done =>
        (done.1, resourceAt chunkdata pos ++ done.2)
termination_by chunkdata.length - pos
decreasing_by
  have least : chunkStep chunkdata pos ≤ chunkHeaderSize + chunkLength chunkdata pos := Nat.mod_le _ _
  omega

structure CrChunk where
  id : Bytes
  handle : Bytes
  operation : UInt8
  resources : List Resource
deriving DecidableEq, Repr

def mxitChunkParseCr (chunkdata : Bytes) : Option (Bool × CrChunk) :=
  (getUtf8String chunkdata (zeros 64)).bind fun id =>
    (getUtf8String id.2 (zeros 64)).bind fun handle =>
      let operation := getInt8 handle.2
      let chunkslen := getInt32 operation.2
      let pos := chunkdata.length - chunkslen.2.length
      if chunkdata.length < pos + chunkslen.1 then
        some (false, ⟨id.1, handle.1, operation.1, []⟩)
      else
        (crLoop chunkdata pos chunkslen.1).map fun done =>
          (done.1, ⟨id.1, handle.1, operation.1, done.2⟩)

structure SendfileChunk where
  username : Bytes
  status : Nat
  statusmsg : Bytes
deriving DecidableEq, Repr

def mxitChunkParseSendfile (chunkdata : Bytes) : Option (Bool × SendfileChunk) :=
  let entries := getInt16 chunkdata
  if entries.1 < 1 then some (false, ⟨zeros 65, 0, zeros 1024⟩)
  else
    (getUtf8String entries.2 (zeros 65)).bind fun username =>
      let status := getInt32 username.2
      (getUtf8String status.2 (zeros 1024)).map fun statusmsg =>
        (true, ⟨username.1, status.1, statusmsg.1⟩)

structure GetavatarChunk where
  mxitid : Bytes
  avatarid : Bytes
  format : Bytes
  bitdepth : UInt8
  crc : Nat
  width : Nat
  height : Nat
  length : Nat
  data : Option Nat
deriving DecidableEq, Repr

def avatarNumbers (chunkdata mxitid avatarid : Bytes) (format : Bytes × Bytes) : Bool × GetavatarChunk :=
  let bitdepth := getInt8 format.2
  let crc := getInt32 bitdepth.2
  let width := getInt32 crc.2
  let height := getInt32 width.2
  let length := getInt32 height.2
  let pos := chunkdata.length - length.2.length
  let avatar : GetavatarChunk :=
    ⟨mxitid, avatarid, format.1, bitdepth.1, crc.1, width.1, height.1, length.1, none⟩
  if chunkdata.length - pos < length.1 then (false, avatar)
  else (true, { avatar with data := if 0 < length.1 then some pos else none })

def mxitChunkParseGetAvatar (chunkdata : Bytes) : Option (Bool × GetavatarChunk) :=
  let numfiles := getInt32 chunkdata
  if numfiles.1 < 1 then some (false, ⟨zeros 50, zeros 64, zeros 16, 0, 0, 0, 0, 0, none⟩)
  else
    (getUtf8String numfiles.2 (zeros 50)).bind fun mxitid =>
      (getUtf8String mxitid.2 (zeros 64)).bind fun avatarid =>
        (getUtf8String avatarid.2 (zeros 16)).map fun format =>
          avatarNumbers chunkdata mxitid.1 avatarid.1 format

end Purple.Mxit
