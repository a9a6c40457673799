/-
Messages of MySpaceIM, from message.c of the MySpace plugin.

A message is the list of its elements, and the empty list is the NULL message.  The texts
of an element are C strings.  Base64 is a parameter.
-/

import Mathlib.Data.List.TakeWhile
import Purple.Decimal

namespace Purple.Myspace

open CString Decimal

abbrev Bytes := List UInt8

abbrev Text := { bytes : Bytes // 0 ∉ bytes }

theorem cString_noNul (bytes : Bytes) : 0 ∉ cString bytes := fun nul =>
  absurd (@List.mem_takeWhile_imp _ (· != 0) bytes 0 nul) (by decide)

/-- `g_strdup`. -/
def strdup (bytes : Bytes) : Text := ⟨cString bytes, cString_noNul bytes⟩

/-- `purple_base64_encode` and `purple_base64_decode`. -/
structure Base64 where
  encode : Bytes → Text
  decode : Bytes → Option Bytes

structure MsimMessageElement (Data : Type) where
  name : Text
  data : Data

inductive MsimData where
  | integer (value : UInt32)
  | raw (text : Text)
  | string (text : Text)
  | binary (bytes : Bytes)
  | boolean (value : Bool)
  | dictionary (elements : List (MsimMessageElement MsimData))
  | list (items : List Text)

abbrev MsimMessage := List (MsimMessageElement MsimData)

def msimEscapeReplacements : List (Bytes × UInt8) := [(ascii "/1", 47), (ascii "/2", 92)]

def msimEscape (msg : Bytes) : Bytes :=
  msg.flatMap fun byte =>
    (msimEscapeReplacements.find? fun replacement => replacement.2 == byte).elim [byte] (·.1)

def msimUnescape : Bytes → Bytes
  | [] => []
  | [byte] => [byte]
  | byte :: next :: rest =>
    match msimEscapeReplacements.find? fun replacement => replacement.1 == [byte, next] with
    | some replacement => replacement.2 :: msimUnescape rest
    | none => byte :: msimUnescape (next :: rest)

variable (base64 : Base64)

/-- `g_strjoinv` with a separator of one byte. -/
def strjoinv (separator : UInt8) (strings : List Bytes) : Bytes := [separator].intercalate strings

/-- An element whose name begins with `_` is left out of what is packed. -/
def hidden (name : Text) : Bool := name.val.head? == some 95

mutual

def msimMsgPackElementData : MsimData → Option Bytes
  | .integer value => some (printInt value.toInt32.toInt)
  | .raw text => some text.val
  | .string text => some (msimEscape text.val)
  | .binary bytes => some (base64.encode bytes).val
  | .boolean value => some (ascii (if value then "On" else "Off"))
  | .dictionary elements =>
    if elements.isEmpty then none else some (strjoinv 28 (msimMsgPackDict elements))
  | .list items => some (strjoinv 124 (items.map (·.val)))

/-- The strings that `msim_msg_pack_dict` joins. -/
def msimMsgPackDict : List (MsimMessageElement MsimData) → List Bytes
  | [] => []
  | element :: rest => (msimMsgPackElementDict element).toList ++ msimMsgPackDict rest

def msimMsgPackElementDict : MsimMessageElement MsimData → Option Bytes
  | ⟨name, data⟩ =>
    if hidden name then none
    else (msimMsgPackElementData data).map fun text => name.val ++ [61] ++ text

end

def msimMsgPackElement (element : MsimMessageElement MsimData) : Option Bytes :=
  if hidden element.name then none
  else
    match element.data with
    | .boolean value => some (if value then element.name.val ++ [92] else [])
    | data => some (element.name.val ++ [92] ++ (msimMsgPackElementData base64 data).getD [])

def finalString : Bytes := ascii "\\final\\"

def msimMsgPack (msg : MsimMessage) : Option Bytes :=
  if msg.isEmpty then none
  else some ([92] ++ strjoinv 92 (msg.filterMap (msimMsgPackElement base64)) ++ finalString)

/-- `g_strsplit` at one byte; the empty string has no parts. -/
def strsplit (delimiter : UInt8) (text : Bytes) : List Bytes :=
  if text = [] then [] else text.splitOn delimiter

def rawElement (key value : Bytes) : MsimMessageElement MsimData :=
  ⟨strdup key, .raw (strdup value)⟩

def parseTokens : List Bytes → MsimMessage
  | key :: value :: tokens => rawElement key value :: parseTokens tokens
  | _ => []

def msimParse : Bytes → MsimMessage
  | 92 :: rest => parseTokens (strsplit 92 rest)
  | _ => []

def msimMsgGet (msg : MsimMessage) (name : Bytes) : Option (MsimMessageElement MsimData) :=
  msg.find? fun element => element.name.val == name

def msimMsgGetStringFromElement (element : MsimMessageElement MsimData) : Option Bytes :=
  match element.data with
  | .integer value => some (printInt value.toInt32.toInt)
  | .raw text => some (msimUnescape text.val)
  | .string text => some text.val
  | _ => none

def msimMsgGetString (msg : MsimMessage) (name : Bytes) : Option Bytes :=
  (msimMsgGet msg name).bind msimMsgGetStringFromElement

/-- The items of a list that was built are texts, those of one that was parsed are elements. -/
inductive MsimList where
  | texts (items : List Text)
  | elements (items : MsimMessage)

def msimMsgListParse (raw : Bytes) : MsimMessage :=
  (strsplit 124 raw).mapIdx fun i item =>
    ⟨strdup (ascii "(list item #" ++ printInt i ++ ascii ")"), .raw (strdup item)⟩

def msimMsgGetListFromElement (element : MsimMessageElement MsimData) : Option MsimList :=
  match element.data with
  | .list items => some (.texts items)
  | .raw text => some (.elements (msimMsgListParse text.val))
  | _ => none

def msimMsgGetList (msg : MsimMessage) (name : Bytes) : Option MsimList :=
  (msimMsgGet msg name).bind msimMsgGetListFromElement

/-- `g_strsplit` of an item at its first `=`, and the loop that an item without one ends. -/
def parseItems : List Bytes → MsimMessage
  | [] => []
  | item :: items =>
    match item.dropWhile (· != 61) with
    | [] => []
    | _ :: value => rawElement (item.takeWhile (· != 61)) value :: parseItems items

def msimMsgDictionaryParse (raw : Bytes) : MsimMessage := parseItems (strsplit 28 raw)

def msimMsgGetDictionaryFromElement (element : MsimMessageElement MsimData) :
    Option MsimMessage :=
  match element.data with
  | .dictionary elements => some elements
  | .raw text => some (msimMsgDictionaryParse text.val)
  | _ => none

def msimMsgGetDictionary (msg : MsimMessage) (name : Bytes) : Option MsimMessage :=
  (msimMsgGet msg name).bind msimMsgGetDictionaryFromElement

def msimMsgGetIntegerFromElement (element : MsimMessageElement MsimData) : UInt32 :=
  match element.data with
  | .integer value => value
  | .raw text => UInt32.ofInt (atoi text.val)
  | .string text => UInt32.ofInt (atoi text.val)
  | _ => 0

def msimMsgGetInteger (msg : MsimMessage) (name : Bytes) : UInt32 :=
  (msimMsgGet msg name).elim 0 msimMsgGetIntegerFromElement

def msimMsgGetBinaryFromElement (element : MsimMessageElement MsimData) : Option Bytes :=
  match element.data with
  | .raw text => base64.decode text.val
  | .binary bytes => some bytes
  | _ => none

def msimMsgGetBinary (msg : MsimMessage) (name : Bytes) : Option Bytes :=
  (msimMsgGet msg name).bind (msimMsgGetBinaryFromElement base64)

end Purple.Myspace
