/-
Reading the payload of an MSN message, from msg.c.

A string is the bytes before its NUL.  A function is `none` where a string
function gets NULL or where something outside the copy of the payload is read;
`g_strdup` and `g_free` take NULL.  The conversions of GLib are parameters.
-/

import Mathlib.Data.List.TakeWhile
import Purple.Mime
import Purple.Msn.Httpconn

namespace Purple.Msn.Msg

open List Option CString

/-- The body with its length.  A key of `header_list` that `header_table` has
freed is `none`. -/
structure MsnMessage where
  contentType : Option Bytes
  charset : Option Bytes
  body : Option Bytes
  headerTable : HashTable Bytes Bytes
  headerList : List (Option Bytes)

def msnMessageNew : MsnMessage :=
  { contentType := none, charset := none, body := none, headerTable := HashTable.empty
    headerList := [] }

/-- `g_utf8_validate` stops at `validFront`; `freedKey` is what a freed key in
front of others reads as. -/
structure Glib where
  gConvert : Bytes → Bytes → Option Bytes
  validFront : Bytes → Nat
  freedKey : List (Option Bytes) → Bytes

section parse

variable (glib : Glib)

/-- The first key that is the name up to case is taken out of the list. -/
def removeKey (name : Bytes) : List (Option Bytes) → List (Option Bytes)
  | [] => []
  | key :: rest =>
    if (key.getD (glib.freedKey rest)).map asciiToLower = name.map asciiToLower then rest
    else key :: removeKey name rest

def freeKey (name : Bytes) (key : Option Bytes) : Option Bytes :=
  if key = some name then none else key

def msnMessageSetHeader (msg : MsnMessage) (name : Bytes) (value : Option Bytes) : MsnMessage :=
  let temp := msg.headerTable.lookup name
  match value with
  | none =>
    if temp.isSome then
      { msg with
        headerList := (removeKey glib name msg.headerList).map (freeKey name)
        headerTable := msg.headerTable.remove name }
    else msg
  | some value =>
    { msg with
      headerTable := msg.headerTable.insert name value
      headerList := if temp.isNone then msg.headerList ++ [some name] else msg.headerList }

def colonBlank : Bytes := [58, 32]

def equalsQuote : Bytes := [61, 34]

def isFolded (line : Bytes) : Bool := line.head? = some 32 || line.head? = some 9

/-- `g_strchug` -/
def strchug (text : Bytes) : Bytes := text.dropWhile Mime.asciiSpace

/-- Only the boundary is taken from a line that was folded. -/
def foldedLine (msg : MsnMessage) (line : Bytes) : Option MsnMessage :=
  let tokens := strsplit equalsQuote 2 (strchug line)
  tokens.head?.map fun key =>
    match if key = ascii "boundary" then tokens[1]? else none with
    | none => msg
    | some value =>
      if 34 ∈ value then msnMessageSetHeader glib msg key (some (value.takeWhile (· != 34)))
      else msg

/-- The content type ends at a semicolon, and the charset is what stands behind
the next equals sign. -/
def contentTypeLine (msg : MsnMessage) (value : Option Bytes) : MsnMessage :=
  match value with
  | none => { msg with contentType := none }
  | some value =>
    if 59 ∈ value then
      let c := value.dropWhile (· != 59)
      { msg with
        charset := if 61 ∈ c then some ((c.dropWhile (· != 61)).drop 1) else msg.charset
        contentType := some (value.takeWhile (· != 59)) }
    else { msg with contentType := some value }

/-- A line without tokens has no key, and NULL is compared. -/
def keyLine (msg : MsnMessage) (line : Bytes) : Option MsnMessage :=
  let tokens := strsplit colonBlank 2 line
  tokens.head?.map fun key =>
    if key = ascii "MIME-Version" then msg
    else if key = ascii "Content-Type" then contentTypeLine msg tokens[1]?
    else msnMessageSetHeader glib msg key tokens[1]?

def headerLine (msg : MsnMessage) (line : Bytes) : Option MsnMessage :=
  if isFolded line then foldedLine glib msg line else keyLine glib msg line

def utf8First (byte : UInt8) : Bool :=
  byte &&& 0x80 = 0 || byte &&& 0xe0 = 0xc0 || byte &&& 0xf0 = 0xe0 || byte &&& 0xf8 = 0xf0

/-- Each turn of the outer loop of `purple_utf8_salvage` takes a byte at least. -/
def salvageRounds : Nat → Bytes → Bytes
  | 0, _ => []
  | rounds + 1, str =>
    str.take (glib.validFront str) ++
      match str.drop (glib.validFront str) with
      | [] => []
      | _ :: rest =>
        63 :: (rest.takeWhile fun byte => !utf8First byte).map (fun _ => 63) ++
          salvageRounds rounds (rest.dropWhile fun byte => !utf8First byte)

def purpleUtf8Salvage (str : Bytes) : Bytes := salvageRounds glib (str.length + 1) str

def utf8 : Bytes := ascii "UTF-8"

/-- A body of text becomes UTF-8, or there is none. -/
def convertBody (msg : MsnMessage) : MsnMessage :=
  match msg.body with
  | none => msg
  | some body =>
    if msg.contentType.any fun contentType => (ascii "text/").isPrefixOf contentType then
      match msg.charset.filter (· != utf8) with
      | none =>
        if glib.validFront body = body.length then msg
        else { msg with body := some (purpleUtf8Salvage glib (cString body)), charset := some utf8 }
      | some charset =>
        match (glib.gConvert charset body).orElse fun _ =>
            glib.gConvert (ascii "ISO-8859-1") body with
        | none => { msg with body := none }
        | some converted => { msg with body := some converted, charset := some utf8 }
    else msg

/-- The string that starts at `p`, which needs a NUL inside the memory. -/
def stringAt (memory : Bytes) (p : Nat) : Option Bytes :=
  if 0 ∈ memory.drop p then some (cString (memory.drop p)) else none

/-- `memcpy` out of the memory. -/
def copyOut (memory : Bytes) (p count : Nat) : Option Bytes :=
  if p + count ≤ memory.length then some ((memory.drop p).take count) else none

def bodyLength (payloadLen behind : Nat) : Nat :=
  if behind ≤ payloadLen then payloadLen - behind else 2 ^ 64 - (behind - payloadLen)

/-- The body of an earlier payload stays where this one has none. -/
def takeBody (msg : MsnMessage) (copy : Bytes) (payloadLen behind : Nat) : Option MsnMessage :=
  if 0 < bodyLength payloadLen behind then
    (copyOut copy behind (bodyLength payloadLen behind)).map fun body => { msg with body := some body }
  else some msg

/-- The copy is cut at the end of the headers before these are split. -/
def msnMessageParsePayload (msg : MsnMessage) (payload lineDem bodyDem : Bytes) :
    Option MsnMessage :=
  let copy := payload ++ [0]
  (stringAt copy 0).bind fun tmp =>
    match strstr bodyDem tmp with
    | none => some msg
    | some stop =>
      let copy := copy.set stop 0
      (stringAt copy 0).bind fun headers =>
        ((strsplit lineDem 0 headers).foldlM (headerLine glib) msg).bind fun msg =>
          (takeBody msg copy payload.length (stop + bodyDem.length)).map (convertBody glib)

/-- No NULL is passed, nothing outside is read, and the message stays as it is
where the end of the headers is missing. -/
def ParsesSafely (msg : MsnMessage) (payload : Bytes) : Prop :=
  ∃ after, msnMessageParsePayload glib msg payload crlf blankLine = some after ∧
    (strstr blankLine (cString payload) = none → after = msg)

end parse

/-- The line has a key: it is not empty, and not white space alone where it was
folded. -/
def LineFilled (line : Bytes) : Prop :=
  line ≠ [] ∧ (isFolded line → ∃ byte ∈ line, Mime.asciiSpace byte = false)

def HeaderLinesFilled (payload : Bytes) : Prop :=
  ∀ stop, strstr blankLine (cString payload) = some stop →
    ∀ line ∈ strsplit crlf 0 ((cString payload).take stop), LineFilled line

theorem stringAt_start {memory : Bytes} (ended : 0 ∈ memory) :
    stringAt memory 0 = some (cString memory) := if_pos ended

theorem cString_set {memory : Bytes} {stop : Nat} (inside : stop < memory.length) :
    cString (memory.set stop 0) = (cString memory).take stop := by
  rw [set_eq_take_append_cons_drop, if_pos inside, cString_ended]
  exact cString_take memory stop

theorem strsplit_head? (delimiter text : Bytes) (maxTokens : Nat) :
    (strsplit delimiter maxTokens text).head?.isSome ↔ text ≠ [] := by
  rw [strsplit]
  split
  · rename_i empty
    exact ⟨(fun impossible => nomatch impossible), fun filled => absurd empty filled⟩
  · rename_i filled
    refine ⟨fun _ => filled, fun _ => ?_⟩
    generalize (if maxTokens = 0 then text.length else maxTokens - 1) = rounds
    cases rounds with
    | zero => rfl
    | succ rounds =>
      rw [strsplitRounds]
      split <;> rfl

theorem strchug_filled (line : Bytes) :
    strchug line ≠ [] ↔ ∃ byte ∈ line, Mime.asciiSpace byte = false := by
  rw [strchug, ne_eq, dropWhile_eq_nil_iff]
  constructor
  · intro notAll
    by_contra none
    apply notAll
    intro byte member
    by_contra solid
    exact none ⟨byte, member, Bool.eq_false_iff.mpr solid⟩
  · rintro ⟨byte, member, solid⟩ all
    rw [all byte member] at solid
    cases solid

theorem headerLine_isSome (glib : Glib) (msg : MsnMessage) (line : Bytes) :
    (headerLine glib msg line).isSome ↔ LineFilled line := by
  rw [headerLine, LineFilled]
  by_cases folded : isFolded line
  · rw [if_pos folded, foldedLine, isSome_map, strsplit_head?, strchug_filled]
    constructor
    · intro solid
      refine ⟨?_, fun _ => solid⟩
      rintro rfl
      cases folded
    · rintro ⟨-, solid⟩
      exact solid folded
  · rw [if_neg folded, keyLine, isSome_map, strsplit_head?]
    exact ⟨fun filled => ⟨filled, fun again => absurd again folded⟩, fun filled => filled.1⟩

theorem headerLines_isSome (glib : Glib) (lines : List Bytes) (msg : MsnMessage) :
    (lines.foldlM (headerLine glib) msg).isSome ↔ ∀ line ∈ lines, LineFilled line := by
  induction lines generalizing msg with
  | nil => exact ⟨(fun _ _ impossible => nomatch impossible), fun _ => rfl⟩
  | cons line lines ih =>
    rw [foldlM_cons, forall_mem_cons, ← headerLine_isSome glib msg line]
    cases headerLine glib msg line with
    | none => exact ⟨(fun impossible => nomatch impossible), fun both => nomatch both.1⟩
    | some after => exact ⟨fun rest => ⟨rfl, (ih after).mp rest⟩, fun both => (ih after).mpr both.2⟩

theorem takeBody_inside (msg : MsnMessage) {copy : Bytes} {payloadLen behind : Nat}
    (before : behind ≤ payloadLen) (inside : payloadLen ≤ copy.length) :
    ∃ after, takeBody msg copy payloadLen behind = some after := by
  rw [takeBody, bodyLength, if_pos before]
  split
  · have room : behind + (payloadLen - behind) ≤ copy.length := by omega
    rw [copyOut, if_pos room]
    exact ⟨_, rfl⟩
  · exact ⟨msg, rfl⟩

def plainGlib : Glib :=
  { gConvert := fun _ text => some text, validFront := fun text => text.length
    freedKey := fun _ => [] }

def breakFirst : Bytes := ascii "\r\nMIME-Version: 1.0\r\n\r\nhi"

/-- A folded line of blanks has no key either. -/
example : ¬ HeaderLinesFilled (ascii "MIME-Version: 1.0\r\n  \r\n\r\nhi") := by
  intro filled
  obtain ⟨-, solid⟩ := filled 21 rfl (ascii "  ") (by decide)
  revert solid
  decide

end Purple.Msn.Msg
