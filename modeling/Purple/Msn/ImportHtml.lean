/-
The conversion of an outgoing message to MSN's own format, `msn_import_html` of
msnutils.c.

The cursor is the part of the string that is left before its terminator.  A cursor
that is moved behind the terminator is read there at once, so the move is the fault.
`purple_unescape_html` is a parameter.  Lengths are counted without the bounds of `int`.
-/

import Purple.MarkupSlice
import Purple.Mime
import Purple.Msn.Servconn

namespace Purple.Msn

open Memory CString Utf8
open MarkupSlice (startsWith)

inductive ImportFault where
  | pastTerminator
  | pastOutput
  | endless
deriving DecidableEq, Repr

abbrev Import (α : Type) := Except ImportFault α

/-- What has been put together at the head of the loop; the letters of `fonteffect` are
those whose flag is set. -/
structure ImportState where
  msg : Block UInt8
  retcount : Nat
  fontface : Option Bytes
  fonteffect : Bytes
  fontcolor : Bytes
  direction : UInt8
deriving DecidableEq, Repr

def charAt (rest : Bytes) (index : Nat) : Import UInt8 :=
  if index < rest.length then .ok (rest.getD index 0)
  else if index = rest.length then .ok 0
  else .error .pastTerminator

def advance (count : Nat) (rest : Bytes) : Import Bytes :=
  if count ≤ rest.length then .ok (rest.drop count) else .error .pastTerminator

/-- `if (*c != '\0') c += count` -/
def advanceInside (count : Nat) (rest : Bytes) : Import Bytes :=
  if rest = [] then .ok rest else advance count rest

/-- `msg[retcount++] = byte` -/
def put (byte : UInt8) (st : ImportState) : Import ImportState :=
  match st.msg.store st.retcount [some byte] with
  | none => .error .pastOutput
  | some msg => .ok { st with msg, retcount := st.retcount + 1 }

/-- Everything before the first place where `stop` starts. -/
def copyUntil (stop : Bytes) (st : ImportState) : Bytes → Import (ImportState × Bytes)
  | [] => .ok (st, [])
  | byte :: rest =>
    if startsWith stop (byte :: rest) then .ok (st, byte :: rest)
    else do
      let st ← put byte st
      copyUntil stop st rest

def skipUntil (stop : Bytes) : Bytes → Bytes
  | [] => []
  | byte :: rest => if startsWith stop (byte :: rest) then byte :: rest else skipUntil stop rest

def isAlpha (byte : UInt8) : Bool := 97 ≤ asciiToLower byte && asciiToLower byte ≤ 122

def insideProperty (byte : UInt8) : Bool := byte != 34 && byte != 59

/-- The text behind the name of the property.  Each turn passes a semicolon. -/
def cssFind (opt : Bytes) : Nat → Bytes → Option Bytes
  | 0, _ => none
  | turns + 1, style =>
    let css := style.dropWhile Mime.asciiSpace
    if !(css.head?.any isAlpha) then none
    else if startsWith opt css then some (css.drop opt.length)
    else
      match css.dropWhile insideProperty with
      | 59 :: behind => cssFind opt turns behind
      | _ => none

def purpleMarkupGetCssProperty (unescapeHtml : Bytes → Bytes) (style opt : Bytes) :
    Option Bytes :=
  (cssFind opt (style.length + 1) style).bind fun behind =>
    match behind.dropWhile Mime.asciiSpace with
    | 58 :: text =>
      let value := (text.dropWhile Mime.asciiSpace).takeWhile insideProperty
      if value = [] then none
      else some (unescapeHtml (value.reverse.dropWhile Mime.asciiSpace).reverse)
    | _ => none

def addEffect (letter : UInt8) (st : ImportState) : ImportState :=
  if letter ∈ st.fonteffect then st else { st with fonteffect := st.fonteffect ++ [letter] }

def passMailto (rest : Bytes) : Import Bytes :=
  if startsWith (ascii "mailto:") rest then advance 7 rest else .ok rest

def hrefTag (st : ImportState) (rest : Bytes) : Import (ImportState × Bytes) := do
  let rest ← advance 9 rest
  let rest ← passMailto rest
  let (st, rest) ← copyUntil (ascii "\">") st rest
  let rest ← advanceInside 2 rest
  let rest ← advanceInside 4 (skipUntil (ascii "</a>") rest)
  .ok (st, rest)

/-- The value of a style attribute is read and the cursor stays in front of it. -/
def styleDirection (unescapeHtml : Bytes → Bytes) (direction : UInt8) (rest : Bytes) : UInt8 :=
  let attributes := rest.takeWhile (· != 34)
  if attributes.length < rest.length then
    match purpleMarkupGetCssProperty unescapeHtml attributes (ascii "direction") with
    | some value => if startsWith (ascii "RTL") value then 49 else direction
    | none => direction
  else direction

def spanTurn (unescapeHtml : Bytes → Bytes) (direction : UInt8) (rest : Bytes) :
    Import (UInt8 × Bytes) := do
  let rest := rest.dropWhile (· == 32)
  if startsWith (ascii "dir=\"rtl\"") rest then
    let rest ← advance 9 rest
    .ok (49, rest)
  else if startsWith (ascii "style=\"") rest then
    let rest ← advance 7 rest
    .ok (styleDirection unescapeHtml direction rest, rest)
  else
    let rest ← advance 1 rest
    .ok (direction, rest)

def spanRounds (unescapeHtml : Bytes → Bytes) : Nat → UInt8 → Bytes → Import (UInt8 × Bytes)
  | 0, _, _ => .error .endless
  | rounds + 1, direction, rest =>
    if rest = [] ∨ rest.head? = some 62 then .ok (direction, rest)
    else do
      let (direction, rest) ← spanTurn unescapeHtml direction rest
      spanRounds unescapeHtml rounds direction rest

/-- `if (*c == '>') c++` -/
def passGreater (rest : Bytes) : Import Bytes :=
  if rest.head? = some 62 then advance 1 rest else .ok rest

def spanTag (unescapeHtml : Bytes → Bytes) (st : ImportState) (rest : Bytes) :
    Import (ImportState × Bytes) := do
  let rest ← advance 5 rest
  let (direction, rest) ← spanRounds unescapeHtml (rest.length + 1) st.direction rest
  let rest ← passGreater rest
  .ok ({ st with direction }, rest)

/-- Only seven characters of `color="#` are compared. -/
def colorTag (st : ImportState) (rest : Bytes) : Import (ImportState × Bytes) := do
  let rest ← advance 8 rest
  let fontcolor ← [4, 5, 2, 3, 0, 1].mapM (charAt rest)
  let rest ← advance 8 rest
  .ok ({ st with fontcolor }, rest)

/-- Without a second quote `end` is NULL, and so is nearly the next cursor. -/
def faceTag (st : ImportState) (rest : Bytes) : Import (ImportState × Bytes) := do
  let rest ← advance 6 rest
  match rest.idxOf? 34 with
  | none => .error .pastTerminator
  | some quote =>
    let namelen := min quote ((rest.idxOf? 44).getD quote)
    let behind ← advance (quote + 2) rest
    .ok ({ st with fontface := some (rest.take namelen) }, behind)

def fontTag (st : ImportState) (rest : Bytes) : Import (ImportState × Bytes) := do
  let rest ← advance 5 rest
  let rest := rest.dropWhile (· == 32)
  if strncasecmpEq rest (ascii "color=\"#") 7 then colorTag st rest
  else if strncasecmpEq rest (ascii "face=\"") 6 then faceTag st rest
  else do
    let rest ← advanceInside 2 (skipUntil (ascii "\">") rest)
    .ok (st, rest)

/-- The cursor is at a `<`, with `behind` after it. -/
def tagStep (unescapeHtml : Bytes → Bytes) (st : ImportState) (rest behind : Bytes) :
    Import (ImportState × Bytes) :=
  if startsWith (ascii "br>") behind then do
    let st ← put 13 st
    let st ← put 10 st
    let rest ← advance 4 rest
    .ok (st, rest)
  else if startsWith (ascii "i>") behind then do .ok (addEffect 73 st, ← advance 3 rest)
  else if startsWith (ascii "b>") behind then do .ok (addEffect 66 st, ← advance 3 rest)
  else if startsWith (ascii "u>") behind then do .ok (addEffect 85 st, ← advance 3 rest)
  else if startsWith (ascii "s>") behind then do .ok (addEffect 83 st, ← advance 3 rest)
  else if startsWith (ascii "a href=\"") behind then hrefTag st rest
  else if startsWith (ascii "span") behind then spanTag unescapeHtml st rest
  else if startsWith (ascii "font") behind then fontTag st rest
  else do .ok (st, ← advanceInside 1 (rest.dropWhile (· != 62)))

/-- The entities in the order they are tried, and what is written for each. -/
def entities : List (Bytes × UInt8) :=
  [(ascii "&lt;", 60), (ascii "&gt;", 62), (ascii "&nbsp;", 32), (ascii "&quot;", 34),
    (ascii "&amp;", 38), (ascii "&apos;", 39)]

def copyByte (st : ImportState) (byte : UInt8) (rest : Bytes) : Import (ImportState × Bytes) := do
  let st ← put byte st
  let rest ← advance 1 rest
  .ok (st, rest)

def entityStep (st : ImportState) (rest : Bytes) : Import (ImportState × Bytes) :=
  match entities.find? fun entity => startsWith entity.1 rest with
  | some entity => do
    let st ← put entity.2 st
    let rest ← advance entity.1.length rest
    .ok (st, rest)
  | none => copyByte st 38 rest

/-- One turn of the loop, at a cursor that is not at the terminator. -/
def importStep (unescapeHtml : Bytes → Bytes) (st : ImportState) (byte : UInt8)
    (behind : Bytes) : Import (ImportState × Bytes) :=
  if byte = 60 then tagStep unescapeHtml st (byte :: behind) behind
  else if byte = 38 then entityStep st (byte :: behind)
  else copyByte st byte (byte :: behind)

def importRounds (unescapeHtml : Bytes → Bytes) :
    Nat → ImportState → Bytes → Import ImportState
  | 0, _, _ => .error .endless
  | _ + 1, st, [] => .ok st
  | rounds + 1, st, byte :: behind => do
    let (st, rest) ← importStep unescapeHtml st byte behind
    importRounds unescapeHtml rounds st rest

def bufLength : Nat := 2048

/-- The loop of `msn_encode_spaces`; `kept` is the text before `nonspace`. -/
def encodeLoop : Nat → Bytes → Bytes → Bytes → Bytes
  | _, _, kept, [] => kept
  | len, buf, kept, byte :: str =>
    if len ≤ 1 then kept
    else if byte = 37 then
      if len < 4 then kept
      else encodeLoop (len - 3) (buf ++ ascii "%25") (buf ++ ascii "%25") str
    else if byte = 32 then
      if len < 4 then kept else encodeLoop (len - 3) (buf ++ ascii "%20") kept str
    else encodeLoop (len - 1) (buf ++ [byte]) (buf ++ [byte]) str

def msnEncodeSpaces (str : Bytes) (len : Nat) : Bytes :=
  encodeLoop len [] [] (str.dropWhile isSpace)

def formatAttributes (st : ImportState) : Bytes :=
  ascii "FN=" ++ msnEncodeSpaces (st.fontface.getD (ascii "Segoe UI")) bufLength ++
    ascii "; EF=" ++ st.fonteffect ++ ascii "; CO=" ++ cString st.fontcolor ++
    ascii "; PF=0; RL=" ++ [st.direction]

/-- The block of `g_malloc0(len + 1)`, and nothing found yet. -/
def importStart (len : Nat) : ImportState where
  msg := List.replicate (len + 1) (some 0)
  retcount := 0
  fontface := none
  fonteffect := []
  fontcolor := [48]
  direction := 48

def msnImportHtml (unescapeHtml : Bytes → Bytes) (html : Bytes) :
    Import (Bytes × Block UInt8) := do
  let html := cString html
  let st ← importRounds unescapeHtml (html.length + 1) (importStart html.length) html
  .ok (formatAttributes st, st.msg)

end Purple.Msn
