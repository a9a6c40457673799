/-
Multipart documents of mime.c: writing and parsing.

A C string is the list of its bytes before the NUL.  The written document is a
C string, and the search for a boundary stops at its NUL.  A function is `none`
where the source reads behind the NUL.
-/

import Purple.CString
import Purple.HashTable

namespace Purple.Mime

open CString

abbrev Bytes := List UInt8

def crlf : Bytes := [13, 10]

def colon : UInt8 := 58

def semicolon : UInt8 := 59

def equalsSign : UInt8 := 61

def quote : UInt8 := 34

def blank : UInt8 := 32

def dashes : Bytes := [45, 45]

/-- `foreach` takes the entries of the table in any order. -/
structure MimeFields where
  map : HashTable Bytes Bytes
  keys : List Bytes

def fieldsInit : MimeFields := { map := HashTable.empty, keys := [] }

/-- `g_ascii_strdown` -/
def strdown (text : Bytes) : Bytes := text.map asciiToLower

def fieldsSet (mf : MimeFields) (key val : Bytes) : MimeFields :=
  { map := mf.map.insert (strdown key) val
    keys := if (mf.map.lookup (strdown key)).isSome then mf.keys else mf.keys ++ [strdown key] }

def fieldsGet (mf : MimeFields) (key : Bytes) : Option Bytes := mf.map.lookup (strdown key)

/-- `g_ascii_isspace` -/
def asciiSpace (byte : UInt8) : Bool := byte = 32 || (9 ≤ byte && byte ≤ 13 && byte ≠ 11)

/-- `g_strstrip` -/
def strstrip (text : Bytes) : Bytes :=
  ((text.dropWhile asciiSpace).reverse.dropWhile asciiSpace).reverse

/-- `g_strsplit` at tab, carriage return and line feed in a row, and `g_strjoinv`. -/
def joinSplit : Bytes → Bytes
  | 9 :: 13 :: 10 :: rest => joinSplit rest
  | byte :: rest => byte :: joinSplit rest
  | [] => []

def fieldsLoadline (mf : MimeFields) (line : Bytes) : MimeFields :=
  let key := line.takeWhile fun byte => byte ≠ colon
  if colon ∈ line then
    fieldsSet mf (strstrip (joinSplit key)) (strstrip (joinSplit (line.drop (key.length + 1))))
  else mf

/-- The fields, and what is left of the buffer.  A line that ends with a
semicolon goes on with the next one. -/
def fieldsLoad : Nat → MimeFields → Bytes → Option (MimeFields × Bytes)
  | 0, _, _ => none
  | rounds + 1, mf, buf =>
    match strstr crlf buf with
    | none => some (mf, buf)
    | some ln =>
      if ln = 0 then some (mf, buf.drop 2)
      else
        match if buf[ln - 1]? = some semicolon then strstr crlf (buf.drop (ln + 2)) else none with
        | none => fieldsLoad rounds (fieldsLoadline mf (buf.take ln)) (buf.drop (ln + 2))
        | some cln =>
          fieldsLoad rounds (fieldsLoadline mf (buf.take (ln + 2 + cln)))
            (buf.drop (ln + 2 + cln + 2))

def loadFields (buf : Bytes) : Option (MimeFields × Bytes) :=
  fieldsLoad (buf.length + 1) fieldsInit buf

def fieldWrite (entry : Bytes × Bytes) : Bytes := entry.1 ++ colon :: blank :: entry.2 ++ crlf

def fieldsWrite (mf : MimeFields) : Bytes := mf.map.entries.flatMap fieldWrite ++ crlf

structure MimePart where
  fields : MimeFields
  data : Bytes

structure MimeDocument where
  fields : MimeFields
  parts : List MimePart

def purpleMimeDocumentNew : MimeDocument := { fields := fieldsInit, parts := [] }

def purpleMimeDocumentSetField (doc : MimeDocument) (field value : Bytes) : MimeDocument :=
  { doc with fields := fieldsSet doc.fields field value }

def purpleMimePartNew (doc : MimeDocument) : MimeDocument :=
  { doc with parts := { fields := fieldsInit, data := [] } :: doc.parts }

def purpleMimePartSetField (part : MimePart) (field value : Bytes) : MimePart :=
  { part with fields := fieldsSet part.fields field value }

def purpleMimePartSetData (part : MimePart) (data : Bytes) : MimePart := { part with data }

def trimmed (rest : Bytes) : Bytes :=
  if 4 < rest.length then rest.take (rest.length - 4) else rest

def partLoad (buf : Bytes) : Option MimePart :=
  (loadFields buf).map fun loaded => { fields := loaded.1, data := trimmed loaded.2 }

def partWrite (part : MimePart) : Bytes := fieldsWrite part.fields ++ part.data ++ crlf ++ crlf

/-- `rest` starts with the boundary and `n` bounds its length.  The parts read
before are in `parts`, the last one first. -/
def docPartsLoad (bnd : Bytes) : Nat → List MimePart → Bytes → Nat → Option (List MimePart)
  | 0, _, _, _ => none
  | rounds + 1, parts, rest, n =>
    let skipped := if 2 ≤ n - bnd.length then 2 else 0
    let behind := rest.drop bnd.length
    if behind.length < skipped then none
    else
      let b := behind.drop skipped
      let left := n - bnd.length - skipped
      match strstr bnd (b.take left) with
      | none => some parts
      | some 0 => docPartsLoad bnd rounds parts b left
      | some (sl + 1) =>
        (partLoad (b.take (sl + 1))).bind fun part =>
          docPartsLoad bnd rounds (part :: parts) (b.drop (sl + 1)) left

def loadParts (boundary buf : Bytes) : Option (List MimePart) :=
  let bnd := dashes ++ boundary
  match strstr bnd buf with
  | none => some []
  | some offset => docPartsLoad bnd (buf.length + 1) [] (buf.drop offset) buf.length

def contentType : Bytes := ascii "content-type"

def multipartType (mf : MimeFields) : Option Bytes :=
  (fieldsGet mf contentType).filter fun ct => (ascii "multipart").isPrefixOf ct

def boundaryParameter : Bytes := ascii "boundary="

/-- What stands at `boundary_begin`. -/
def boundaryAt (begun : Bytes) : Option Bytes :=
  if begun.head? = some quote then
    if quote ∈ begun.tail then some (begun.tail.takeWhile fun byte => byte ≠ quote) else none
  else if blank ∈ begun then some (begun.takeWhile fun byte => byte ≠ blank)
  else some (begun.takeWhile fun byte => byte ≠ semicolon)

def parseBoundary (ct : Bytes) : Option Bytes :=
  (strstr boundaryParameter ct).bind fun offset =>
    boundaryAt (ct.drop (offset + boundaryParameter.length))

def purpleMimeDocumentParse (buf : Bytes) : Option MimeDocument :=
  if buf = [] then some purpleMimeDocumentNew
  else
    (loadFields buf).bind fun loaded =>
      ((((multipartType loaded.1).bind parseBoundary).map fun boundary =>
        loadParts boundary loaded.2).getD (some [])).map fun parts =>
          { fields := loaded.1, parts }

def behindEquals (ct : Bytes) : Option Bytes :=
  if equalsSign ∈ ct then some (ct.reverse.takeWhile fun byte => byte ≠ equalsSign).reverse
  else none

/-- The last part is followed by the closing boundary. -/
def partsWrite (bd : Bytes) : List MimePart → Bytes
  | [] => []
  | [part] => dashes ++ bd ++ crlf ++ partWrite part ++ dashes ++ bd ++ dashes ++ crlf
  | part :: next :: rest => dashes ++ bd ++ crlf ++ partWrite part ++ partsWrite bd (next :: rest)

def purpleMimeDocumentWrite (doc : MimeDocument) : Bytes :=
  fieldsWrite doc.fields ++
    (((multipartType doc.fields).bind behindEquals).map fun bd =>
      partsWrite bd doc.parts).getD []

end Purple.Mime
