/-
Escaping and unescaping of text.  A text is the list of its characters: XML
text is UTF-8, and every function here works on whole characters.

`purpleUnescapeText` is `none` where the source writes the encoding of a number
that is no character.
-/

import Mathlib.Algebra.Group.Nat.Defs
import Purple.Sax

namespace Purple.Xml

open Sax

/-- The control characters that GLib writes as a reference. -/
def isEscapedControl (c : Char) : Bool :=
  let n := c.toNat
  (0x1 ≤ n && n ≤ 0x8) || (0xb ≤ n && n ≤ 0xc) || (0xe ≤ n && n ≤ 0x1f) ||
    (0x7f ≤ n && n ≤ 0x84) || (0x86 ≤ n && n ≤ 0x9f)

def escapeChar (c : Char) : Text :=
  if c = '&' then ['&', 'a', 'm', 'p', ';']
  else if c = '<' then ['&', 'l', 't', ';']
  else if c = '>' then ['&', 'g', 't', ';']
  else if c = '\'' then ['&', '#', '3', '9', ';']
  else if c = '"' then ['&', 'q', 'u', 'o', 't', ';']
  else if isEscapedControl c then ['&', '#', 'x'] ++ Nat.toDigits 16 c.toNat ++ [';']
  else [c]

def gMarkupEscapeText (text : Text) : Text := text.flatMap escapeChar

@[simp] theorem gMarkupEscapeText_nil : gMarkupEscapeText [] = [] := rfl

@[simp] theorem gMarkupEscapeText_cons (c : Char) (text : Text) :
    gMarkupEscapeText (c :: text) = escapeChar c ++ gMarkupEscapeText text := rfl

/-- `g_ascii_strncasecmp` against an entity in lower case. -/
def isEntity (text entity : Text) : Bool := (text.take entity.length).map Char.toLower == entity

def isSpace (c : Char) : Bool := c == ' ' || (0x9 ≤ c.toNat && c.toNat ≤ 0xd)

def digitValue (c : Char) : Nat :=
  if c.isDigit then c.toNat - '0'.toNat
  else if 'a' ≤ c && c ≤ 'f' then c.toNat - 'a'.toNat + 10
  else if 'A' ≤ c && c ≤ 'F' then c.toNat - 'A'.toNat + 10
  else 16

def isXDigit (c : Char) : Bool := digitValue c < 16

/-- `sscanf` of `%u` (base 10) or `%x` (base 16) and then `%1[;]`, into 32 bits. -/
def scanUnsigned (base : Nat) (text : Text) : Option Nat :=
  let text := text.dropWhile isSpace
  let negative := text.head? = some '-'
  let text := if text.head? = some '-' || text.head? = some '+' then text.tail else text
  let text := if base = 16 && (text.take 2).map Char.toLower == ['0', 'x'] then text.drop 2 else text
  let digits := text.takeWhile fun c => digitValue c < base
  if digits.isEmpty || (text.drop digits.length).head? ≠ some ';' then none
  else
    let value := min (digits.foldl (fun value c => value * base + digitValue c) 0) (2 ^ 64 - 1)
    some ((if negative then 2 ^ 64 - value else value) % 2 ^ 32)

/-- The length of a numeric reference: the digits and a semicolon behind them. -/
def numericLength (text : Text) : Nat :=
  let start := if text[2]? = some 'x' then 3 else 2
  let digits := (text.drop start).takeWhile isXDigit
  start + digits.length + if text[start + digits.length]? = some ';' then 1 else 0

/-- The character and the length of the entity at the start of `text`; a number
that is no character gives no character. -/
def purpleMarkupUnescapeEntity (text : Text) : Option (Option Char × Nat) :=
  if text.head? ≠ some '&' then none
  else if isEntity text ['&', 'a', 'm', 'p', ';'] then some (some '&', 5)
  else if isEntity text ['&', 'l', 't', ';'] then some (some '<', 4)
  else if isEntity text ['&', 'g', 't', ';'] then some (some '>', 4)
  else if isEntity text ['&', 'n', 'b', 's', 'p', ';'] then some (some ' ', 6)
  else if isEntity text ['&', 'c', 'o', 'p', 'y', ';'] then some (some '©', 6)
  else if isEntity text ['&', 'q', 'u', 'o', 't', ';'] then some (some '"', 6)
  else if isEntity text ['&', 'r', 'e', 'g', ';'] then some (some '®', 5)
  else if isEntity text ['&', 'a', 'p', 'o', 's', ';'] then some (some '\'', 6)
  else if text[1]? = some '#' then
    let scanned :=
      match scanUnsigned 10 (text.drop 2) with
      | some pound => some pound
      | none => if text[2]? = some 'x' then scanUnsigned 16 (text.drop 3) else none
    match scanned with
    | none => none
    | some 0 => none
    | some pound =>
      some (if pound.isValidChar then some (Char.ofNat pound) else none, numericLength text)
  else none

/-- `skip` characters belong to an entity that has been replaced. -/
def unescapeLoop : Nat → Text → Option Text
  | _, [] => some []
  | skip + 1, _ :: rest => unescapeLoop skip rest
  | 0, c :: rest =>
    match purpleMarkupUnescapeEntity (c :: rest) with
    | none => (unescapeLoop 0 rest).map (c :: ·)
    | some (none, _) => none
    | some (some ent, len) => (unescapeLoop (len - 1) rest).map (ent :: ·)

def purpleUnescapeText (text : Text) : Option Text := unescapeLoop 0 text

theorem entity_of_other {c : Char} (other : c ≠ '&') (rest : Text) :
    purpleMarkupUnescapeEntity (c :: rest) = none := by
  rw [purpleMarkupUnescapeEntity, if_pos]
  rw [List.head?_cons]
  exact fun same => other (Option.some.inj same)

theorem entity_of_ampersand (rest : Text) :
    purpleMarkupUnescapeEntity ('&' :: '#' :: '3' :: '8' :: ';' :: rest) = some (some '&', 5) := by
  rfl

theorem purpleUnescapeText_of_expand {value text : Text}
    (expanded : expandAmpersands value = some text) : purpleUnescapeText value = some text := by
  induction value using expandAmpersands.induct generalizing text with
  | case1 => exact expanded
  | case2 rest ih =>
    rw [expandAmpersands] at expanded
    obtain ⟨later, isLater, rfl⟩ := Option.map_eq_some_iff.mp expanded
    rw [purpleUnescapeText]
    simp only [unescapeLoop, entity_of_ampersand]
    exact congrArg (Option.map ('&' :: ·)) (ih isLater)
  | case3 rest other =>
    rw [expandAmpersands, if_pos rfl] at expanded
    · cases expanded
    · exact other
  | case4 c rest other notAmpersand ih =>
    rw [expandAmpersands, if_neg notAmpersand] at expanded
    · obtain ⟨later, isLater, rfl⟩ := Option.map_eq_some_iff.mp expanded
      rw [purpleUnescapeText]
      simp only [unescapeLoop, entity_of_other notAmpersand]
      exact congrArg (Option.map (c :: ·)) (ih isLater)
    · exact other

end Purple.Xml
