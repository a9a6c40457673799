/-
The markup around a message from its `X-MMS-IM-Format` header, `msn_parse_format` of
msnutils.c.

The tags that open before the message and those that close behind it are put together
from the fields of the header, and both texts are percent-decoded afterwards.
-/

import Purple.MarkupSlice
import Purple.Msn.Servconn
import Purple.UrlDecode

namespace Purple.Msn

open CString Utf8 UrlDecode
open MarkupSlice (hexDigit)

structure FormatMarkup where
  pre : Bytes
  post : Bytes
deriving DecidableEq, Repr

/-- `g_string_append` to the one text and `g_string_prepend` to the other. -/
def FormatMarkup.wrap (markup : FormatMarkup) (opening closing : Bytes) : FormatMarkup where
  pre := markup.pre ++ opening
  post := closing ++ markup.post

/-- What follows the first occurrence of a field's name, unless that is a semicolon. -/
def formatField (name mime : Bytes) : Option Bytes :=
  (strstr name mime).bind fun offset =>
    let cur := mime.drop (offset + name.length)
    if cur.head? = some 59 then none else some cur

def upToSemicolon (cur : Bytes) : Bytes := cur.takeWhile (· != 59)

def appendFace (mime : Bytes) (markup : FormatMarkup) : FormatMarkup :=
  match formatField (ascii "FN=") mime with
  | none => markup
  | some cur =>
    markup.wrap (ascii "<FONT FACE=\"" ++ upToSemicolon cur ++ ascii "\">") (ascii "</FONT>")

def appendEffect (markup : FormatMarkup) (letter : UInt8) : FormatMarkup :=
  markup.wrap [60, letter, 62] [60, 47, letter, 62]

def appendEffects (mime : Bytes) (markup : FormatMarkup) : FormatMarkup :=
  match formatField (ascii "EF=") mime with
  | none => markup
  | some cur => (upToSemicolon cur).foldl appendEffect markup

/-- `%02x` of `sscanf`: the number, and what is behind it. -/
def scanHex2 (text : Bytes) : Option (Nat × Bytes) :=
  let text := text.dropWhile isSpace
  let field := text.take 2
  let digits := (stripSign field).2
  let read := (digits.takeWhile fun byte => (digitValue 16 byte).isSome).length
  (scanUlong 16 field).map fun number => (number, text.drop (field.length - digits.length + read))

/-- The conversions that are made before one fails. -/
def scanColors : Nat → Bytes → List Nat
  | 0, _ => []
  | conversions + 1, text =>
    match scanHex2 text with
    | none => []
    | some (number, behind) => number :: scanColors conversions behind

def orderColors : List Nat → Option (Nat × Nat × Nat)
  | [] => none
  | [first] => some (first, 0, 0)
  | [first, second] => some (second, first, 0)
  | first :: second :: third :: _ => some (third, second, first)

/-- `%02x` of `g_snprintf`, for the low eight bits. -/
def hex2 (number : Nat) : Bytes := [hexDigit (number % 256 / 16), hexDigit (number % 16)]

def colorValue (mime : Bytes) : Option Bytes :=
  (formatField (ascii "CO=") mime).bind fun cur =>
    (orderColors (scanColors 3 cur)).map fun colors =>
      ascii "#" ++ hex2 colors.1 ++ hex2 colors.2.1 ++ hex2 colors.2.2

def appendColor (mime : Bytes) (markup : FormatMarkup) : FormatMarkup :=
  match colorValue mime with
  | none => markup
  | some color => markup.wrap (ascii "<FONT COLOR=\"" ++ color ++ ascii "\">") (ascii "</FONT>")

def isRtl (mime : Bytes) : Bool :=
  (formatField (ascii "RL=") mime).any fun cur => cur.head? == some 49

def appendDirection (mime : Bytes) (markup : FormatMarkup) : FormatMarkup :=
  if isRtl mime then
    markup.wrap (ascii "<SPAN style=\"direction:rtl;text-align:right;\">") (ascii "</SPAN>")
  else markup

def formatMarkup (mime : Bytes) : FormatMarkup :=
  appendDirection mime <| appendColor mime <| appendEffects mime <| appendFace mime
    { pre := [], post := [] }

/-- The strings stored in `*pre_ret` and `*post_ret`, or NULL. -/
def msnParseFormat (mime : Bytes) : Option Bytes × Option Bytes :=
  let markup := formatMarkup (cString mime)
  (purpleUrlDecode markup.pre, purpleUrlDecode markup.post)

inductive FormatTag where
  | face (name : Bytes)
  | color (value : Bytes)
  | effect (letter : UInt8)
  | span (style : Bytes)
deriving DecidableEq, Repr

def FormatTag.opening : FormatTag → Bytes
  | .face name => ascii "<FONT FACE=\"" ++ name ++ ascii "\">"
  | .color value => ascii "<FONT COLOR=\"" ++ value ++ ascii "\">"
  | .effect letter => [60, letter, 62]
  | .span style => ascii "<SPAN style=\"" ++ style ++ ascii "\">"

def FormatTag.element : FormatTag → Bytes
  | .face _ => ascii "FONT"
  | .color _ => ascii "FONT"
  | .effect letter => [letter]
  | .span _ => ascii "SPAN"

def FormatTag.closing (tag : FormatTag) : Bytes := 60 :: 47 :: tag.element ++ [62]

def openings (tags : List FormatTag) : Bytes := tags.flatMap FormatTag.opening

def closings (tags : List FormatTag) : Bytes := tags.reverse.flatMap FormatTag.closing

def Inert (value : Bytes) : Prop := 34 ∉ value ∧ 60 ∉ value ∧ 62 ∉ value

instance (value : Bytes) : Decidable (Inert value) :=
  inferInstanceAs (Decidable (34 ∉ value ∧ 60 ∉ value ∧ 62 ∉ value))

def isLetter (byte : UInt8) : Bool := (65 ≤ byte && byte ≤ 90) || (97 ≤ byte && byte ≤ 122)

def FormatTag.Clean : FormatTag → Prop
  | .face name => Inert name
  | .color value => Inert value
  | .effect letter => isLetter letter = true
  | .span style => Inert style

/-- The text before the message opens tags that are well formed, and the text behind it
closes them.  The callers take NULL as the empty text. -/
def Matched (markup : Option Bytes × Option Bytes) : Prop :=
  ∃ tags : List FormatTag, (∀ tag ∈ tags, tag.Clean) ∧
    markup.1.getD [] = openings tags ∧ markup.2.getD [] = closings tags

def faceText (mime : Bytes) : Option Bytes := (formatField (ascii "FN=") mime).map upToSemicolon

def effectText (mime : Bytes) : Bytes := ((formatField (ascii "EF=") mime).map upToSemicolon).getD []

def innerTags (mime : Bytes) : List FormatTag :=
  (effectText mime).map .effect ++ ((colorValue mime).map FormatTag.color).toList ++
    if isRtl mime then [.span (ascii "direction:rtl;text-align:right;")] else []

def formatTags (mime : Bytes) : List FormatTag :=
  ((faceText mime).map FormatTag.face).toList ++ innerTags mime

/-- The font's name stays a value when it is decoded: it is UTF-8 without a NUL, ends with
no part of an escape and is inert.  A name that is cut at a NUL or a byte that is not
UTF-8 cuts the rest of the text as well; it is matched only when it spells that rest
itself, up to values. -/
def FaceInside (face : Bytes) (inner : List FormatTag) : Prop :=
  if cutAtFault (urlBytes face) = urlBytes face then
    escapeLacks face = 0 ∧ Inert (urlBytes face)
  else ∃ name tags, Inert name ∧ (∀ tag ∈ tags, FormatTag.Clean tag) ∧
    cutAtFault (urlBytes face) = name ++ ascii "\">" ++ openings tags ∧
    closings tags = closings inner

/-- Both texts are too long for the decoder, or neither is, the effects are letters and the
font's name stays inside its tag. -/
def FormatInside (mime : Bytes) : Prop :=
  (bufLen ≤ (openings (formatTags mime)).length ∧ bufLen ≤ (closings (formatTags mime)).length) ∨
  ((openings (formatTags mime)).length < bufLen ∧ (closings (formatTags mime)).length < bufLen ∧
    (∀ letter ∈ effectText mime, isLetter letter = true) ∧
    ∀ face, faceText mime = some face → FaceInside face (innerTags mime))

end Purple.Msn
