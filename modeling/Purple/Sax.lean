/-
What a conforming namespace-aware SAX2 parser reports of a text.

An `Item` is the content that a run of callbacks describes.  The plain documents
are those written with start tags, end tags, attributes in apostrophes, character
data and a few references; `readDocument` reads them.  About any other text the
assumptions only say that an accepted one describes a well-formed item.
-/

import Mathlib.Data.List.Basic

namespace Purple.Sax

open List

abbrev Text := List Char

def isXmlChar (c : Char) : Bool :=
  let n := c.toNat
  n == 0x9 || n == 0xa || n == 0xd || (0x20 ≤ n && n != 0xfffe && n != 0xffff)

def isNameStart (c : Char) : Bool :=
  let n := c.toNat
  (0x41 ≤ n && n ≤ 0x5a) || n == 0x5f || (0x61 ≤ n && n ≤ 0x7a) || (0xc0 ≤ n && n ≤ 0xd6) ||
    (0xd8 ≤ n && n ≤ 0xf6) || (0xf8 ≤ n && n ≤ 0x2ff) || (0x370 ≤ n && n ≤ 0x37d) ||
    (0x37f ≤ n && n ≤ 0x1fff) || (0x200c ≤ n && n ≤ 0x200d) || (0x2070 ≤ n && n ≤ 0x218f) ||
    (0x2c00 ≤ n && n ≤ 0x2fef) || (0x3001 ≤ n && n ≤ 0xd7ff) || (0xf900 ≤ n && n ≤ 0xfdcf) ||
    (0xfdf0 ≤ n && n ≤ 0xfffd) || (0x10000 ≤ n && n ≤ 0xeffff)

def isNameChar (c : Char) : Bool :=
  let n := c.toNat
  isNameStart c || n == 0x2d || n == 0x2e || (0x30 ≤ n && n ≤ 0x39) || n == 0xb7 ||
    (0x300 ≤ n && n ≤ 0x36f) || (0x203f ≤ n && n ≤ 0x2040)

def isNcName (name : Text) : Bool :=
  match name with
  | [] => false
  | first :: rest => isNameStart first && rest.all isNameChar

structure SaxAttribute where
  name : Text
  nsPrefix : Option Text
  value : Text
deriving DecidableEq, Repr

structure StartElement where
  name : Text
  nsPrefix : Option Text
  xmlns : Option Text
  namespaces : List (Option Text × Option Text)
  attributes : List SaxAttribute
deriving DecidableEq, Repr

inductive SaxEvent where
  | startElement (element : StartElement)
  | endElement (name : Text)
  | characters (text : Text)
  | error
deriving DecidableEq, Repr

structure SaxRun where
  events : List SaxEvent
  result : Int

def SaxRun.Accepted (run : SaxRun) : Prop := 0 ≤ run.result ∧ .error ∉ run.events

/-- Character data may be reported in any pieces. -/
inductive Item where
  | text (chunk : Text)
  | element (tag : StartElement) (content : List Item)

mutual

def Item.events : Item → List SaxEvent
  | .text chunk => [.characters chunk]
  | .element tag content =>
    .startElement tag :: (contentEvents content ++ [.endElement tag.name])

def contentEvents : List Item → List SaxEvent
  | [] => []
  | item :: rest => item.events ++ contentEvents rest

end

/-- A tree whose character data is split into its characters. -/
inductive Shape (Label : Type) where
  | char (c : Char)
  | node (label : Label) (children : List (Shape Label))

mutual

def Item.shape : Item → List (Shape StartElement)
  | .text chunk => chunk.map .char
  | .element tag content => [.node tag (contentShape content)]

def contentShape : List Item → List (Shape StartElement)
  | [] => []
  | item :: rest => item.shape ++ contentShape rest

end

/-- The innermost declaration comes first; the empty prefix is the default. -/
abbrev Scope := List (Text × Text)

def xmlnsPrefix : Text := ['x', 'm', 'l', 'n', 's']

def xmlPrefix : Text := ['x', 'm', 'l']

def xmlNamespace : Text := "http://www.w3.org/XML/1998/namespace".toList

def xmlnsNamespace : Text := "http://www.w3.org/2000/xmlns/".toList

def declared (namespaces : List (Option Text × Option Text)) : Scope :=
  namespaces.map fun declaration => (declaration.1.getD [], declaration.2.getD [])

def Scope.uri (scope : Scope) (nsPrefix : Option Text) : Option Text :=
  if nsPrefix = some xmlPrefix then some xmlNamespace
  else (scope.lookup (nsPrefix.getD [])).filter (!·.isEmpty)

def Scope.binds (scope : Scope) (nsPrefix : Option Text) : Bool :=
  nsPrefix.all fun found => isNcName found && found != xmlnsPrefix && (scope.uri nsPrefix).isSome

/-- `isUri` says which namespace names the parser takes. -/
def isDeclaration (isUri : Text → Bool) (declaration : Text × Text) : Bool :=
  (declaration.1.isEmpty ||
    isNcName declaration.1 && declaration.1 != xmlPrefix && declaration.1 != xmlnsPrefix &&
      !declaration.2.isEmpty) &&
    (declaration.2.isEmpty || isUri declaration.2) && declaration.2.all isXmlChar &&
    declaration.2 != xmlNamespace && declaration.2 != xmlnsNamespace

/-- Each ampersand written as the reference that libxml2 leaves in a value. -/
def referAmpersands (text : Text) : Text :=
  text.flatMap fun c => if c = '&' then ['&', '#', '3', '8', ';'] else [c]

def expandAmpersands : Text → Option Text
  | [] => some []
  | '&' :: '#' :: '3' :: '8' :: ';' :: rest => (expandAmpersands rest).map ('&' :: ·)
  | c :: rest => if c = '&' then none else (expandAmpersands rest).map (c :: ·)

def isAttribute (scope : Scope) (reported : SaxAttribute) : Bool :=
  isNcName reported.name && scope.binds reported.nsPrefix &&
    (reported.nsPrefix.isSome || reported.name != xmlnsPrefix) &&
    (expandAmpersands reported.value).any (·.all isXmlChar)

def expandedName (scope : Scope) (reported : SaxAttribute) : Option Text × Text :=
  (reported.nsPrefix.bind fun found => scope.uri (some found), reported.name)

/-- The start tag is well formed where `scope` is declared around it. -/
def StartElement.conforms (isUri : Text → Bool) (scope : Scope) (tag : StartElement) : Bool :=
  let inner := declared tag.namespaces ++ scope
  isNcName tag.name && inner.binds tag.nsPrefix && tag.xmlns == inner.uri tag.nsPrefix &&
    (declared tag.namespaces).all (isDeclaration isUri) &&
    decide ((declared tag.namespaces).map Prod.fst).Nodup &&
    tag.attributes.all (isAttribute inner) &&
    decide (tag.attributes.map (expandedName inner)).Nodup

mutual

def Item.conforms (isUri : Text → Bool) (scope : Scope) : Item → Bool
  | .text chunk => chunk.all isXmlChar
  | .element tag content =>
    tag.conforms isUri scope && contentConforms isUri (declared tag.namespaces ++ scope) content

def contentConforms (isUri : Text → Bool) (scope : Scope) : List Item → Bool
  | [] => true
  | item :: rest => item.conforms isUri scope && contentConforms isUri scope rest

end

/-- A character as it is written, or the one a reference stands for. -/
inductive Piece where
  | lit (c : Char)
  | ref (c : Char)
deriving DecidableEq, Repr

abbrev QName := Option Text × Text

inductive DocItem where
  | piece (piece : Piece)
  | element (name : QName) (attributes : List (QName × List Piece)) (content : List DocItem)

def readNcName (text : Text) : Option (Text × Text) :=
  let name := text.takeWhile isNameChar
  if isNcName name then some (name, text.drop name.length) else none

def readQName (text : Text) : Option (QName × Text) := do
  let (first, rest) ← readNcName text
  if rest.head? = some ':' then
    let (name, rest) ← readNcName rest.tail
    return ((some first, name), rest)
  else return ((none, first), rest)

def hexValue (c : Char) : Option Nat :=
  let n := c.toNat
  if 0x30 ≤ n && n ≤ 0x39 then some (n - 0x30)
  else if 0x61 ≤ n && n ≤ 0x66 then some (n - 0x61 + 10)
  else none

def readReference : Text → Option (Char × Text)
  | 'a' :: 'm' :: 'p' :: ';' :: rest => some ('&', rest)
  | 'l' :: 't' :: ';' :: rest => some ('<', rest)
  | 'g' :: 't' :: ';' :: rest => some ('>', rest)
  | 'q' :: 'u' :: 'o' :: 't' :: ';' :: rest => some ('"', rest)
  | '#' :: '3' :: '9' :: ';' :: rest => some ('\'', rest)
  | '#' :: 'x' :: high :: low :: ';' :: rest => do
    some (Char.ofNat ((← hexValue high) * 16 + (← hexValue low)), rest)
  | _ => none

def readValue : Nat → Text → Option (List Piece × Text)
  | 0, _ => none
  | _ + 1, [] => none
  | rounds + 1, c :: rest =>
    if c = '\'' then some ([], rest)
    else if c = '<' then none
    else if c = '&' then do
      let (found, rest) ← readReference rest
      let (pieces, rest) ← readValue rounds rest
      return (.ref found :: pieces, rest)
    else do
      let (pieces, rest) ← readValue rounds rest
      return (.lit c :: pieces, rest)

/-- The attributes of a tag; a declaration of the prefix `xml` is not plain. -/
def readAttributes : Nat → Text → Option (List (QName × List Piece) × Text)
  | 0, _ => none
  | rounds + 1, text =>
    if text.head? = some ' ' then do
      let (name, rest) ← readQName text.tail
      if rest.take 2 ≠ ['=', '\''] ∨ name = (some xmlnsPrefix, xmlPrefix) then none
      else do
        let (pieces, rest) ← readValue rest.length (rest.drop 2)
        let (attributes, rest) ← readAttributes rounds rest
        return ((name, pieces) :: attributes, rest)
    else some ([], text)

mutual

/-- An element behind its `<`. -/
def readElement : Nat → Text → Option (DocItem × Text)
  | 0, _ => none
  | rounds + 1, text => do
    let (name, rest) ← readQName text
    let (attributes, rest) ← readAttributes (rest.length + 1) rest
    if rest.take 2 = ['/', '>'] then return (.element name attributes [], rest.drop 2)
    else if rest.head? = some '>' then
      let (content, rest) ← readContent rounds rest.tail
      let (closing, rest) ← readQName rest
      if closing = name ∧ rest.head? = some '>' then
        return (.element name attributes content, rest.tail)
      else none
    else none

/-- Content up to and with the `</` behind it. -/
def readContent : Nat → Text → Option (List DocItem × Text)
  | 0, _ => none
  | _ + 1, [] => none
  | rounds + 1, c :: rest =>
    if c = '<' then
      if rest.head? = some '/' then some ([], rest.tail)
      else do
        let (item, rest) ← readElement rounds rest
        let (content, rest) ← readContent rounds rest
        return (item :: content, rest)
    else if c = '>' then none
    else if c = '&' then do
      let (found, rest) ← readReference rest
      let (content, rest) ← readContent rounds rest
      return (.piece (.ref found) :: content, rest)
    else do
      let (content, rest) ← readContent rounds rest
      return (.piece (.lit c) :: content, rest)

end

def readDocument (text : Text) : Option DocItem :=
  if text.head? = some '<' then
    match readElement text.length text.tail with
    | some (doc, []) => some doc
    | _ => none
  else none

/-- An attribute value: a line end is one character and white space is blanks. -/
def attributeValue : Bool → List Piece → Text
  | _, [] => []
  | _, .ref c :: rest => c :: attributeValue false rest
  | afterReturn, .lit c :: rest =>
    if afterReturn ∧ c = '\n' then attributeValue false rest
    else (if c = '\t' ∨ c = '\n' ∨ c = '\r' then ' ' else c) :: attributeValue (c = '\r') rest

def declaredPrefix (name : QName) : Option (Option Text) :=
  if name = (none, xmlnsPrefix) then some none
  else if name.1 = some xmlnsPrefix then some (some name.2)
  else none

def namespaceOf (written : QName × List Piece) : Option (Option Text × Option Text) :=
  (declaredPrefix written.1).map fun found => (found, some (attributeValue false written.2))

def attributeOf (written : QName × List Piece) : Option SaxAttribute :=
  if (declaredPrefix written.1).isSome then none
  else some
    { name := written.1.2
      nsPrefix := written.1.1
      value := referAmpersands (attributeValue false written.2) }

def startOf (scope : Scope) (name : QName) (attributes : List (QName × List Piece)) :
    StartElement :=
  let namespaces := attributes.filterMap namespaceOf
  { name := name.2
    nsPrefix := name.1
    xmlns := Scope.uri (declared namespaces ++ scope) name.1
    namespaces
    attributes := attributes.filterMap attributeOf }

mutual

def infoset (scope : Scope) : DocItem → Item
  | .piece (.lit c) => .text [c]
  | .piece (.ref c) => .text [c]
  | .element name attributes content =>
    .element (startOf scope name attributes)
      (infosetContent (declared (attributes.filterMap namespaceOf) ++ scope) false content)

/-- Character data in which a line end is one line feed. -/
def infosetContent (scope : Scope) : Bool → List DocItem → List Item
  | _, [] => []
  | _, .piece (.ref c) :: rest => .text [c] :: infosetContent scope false rest
  | afterReturn, .piece (.lit c) :: rest =>
    if afterReturn ∧ c = '\n' then infosetContent scope false rest
    else .text [if c = '\r' then '\n' else c] :: infosetContent scope (c = '\r') rest
  | _, .element name attributes content :: rest =>
    infoset scope (.element name attributes content) :: infosetContent scope false rest

end

/-- The assumptions on the parser.  An accepted text is reported as an item that
is well formed; a plain document is accepted just when what it says is well
formed, and then that is reported. -/
structure Conforming (isUri : Text → Bool) (parse : Text → SaxRun) : Prop where
  reported : ∀ text, (parse text).Accepted → ∃ tag content,
    (Item.element tag content).conforms isUri [] ∧
      (parse text).events = (Item.element tag content).events
  plain : ∀ text doc, readDocument text = some doc → (infoset [] doc).conforms isUri [] →
    (parse text).Accepted ∧ ∃ tag content, (Item.element tag content).conforms isUri [] ∧
      (parse text).events = (Item.element tag content).events ∧
      (Item.element tag content).shape = (infoset [] doc).shape
  malformed : ∀ text doc, readDocument text = some doc → ¬(infoset [] doc).conforms isUri [] →
    ¬(parse text).Accepted

def plainParse (isUri : Text → Bool) (text : Text) : SaxRun :=
  match readDocument text with
  | some doc =>
    if (infoset [] doc).conforms isUri [] then { events := (infoset [] doc).events, result := 0 }
    else { events := [.error], result := 0 }
  | none => { events := [.error], result := 0 }

theorem readElement_isElement {rounds : Nat} {text rest : Text} {doc : DocItem}
    (read : readElement rounds text = some (doc, rest)) :
    ∃ name attributes content, doc = .element name attributes content := by
  cases rounds with
  | zero => cases read
  | succ rounds =>
    obtain ⟨⟨name, afterName⟩, -, read⟩ := Option.bind_eq_some_iff.mp read
    obtain ⟨⟨attributes, afterAttributes⟩, -, read⟩ := Option.bind_eq_some_iff.mp read
    simp only at read
    split at read
    · cases read
      exact ⟨_, _, _, rfl⟩
    · split at read
      · obtain ⟨⟨content, afterContent⟩, -, read⟩ := Option.bind_eq_some_iff.mp read
        obtain ⟨⟨closing, afterClosing⟩, -, read⟩ := Option.bind_eq_some_iff.mp read
        simp only at read
        split at read
        · cases read
          exact ⟨_, _, _, rfl⟩
        · cases read
      · cases read

theorem readDocument_isElement {text : Text} {doc : DocItem} (read : readDocument text = some doc) :
    ∃ name attributes content, doc = .element name attributes content := by
  rw [readDocument] at read
  split at read
  · split at read
    · rename_i found reached
      cases read
      exact readElement_isElement reached
    · cases read
  · cases read

mutual

theorem events_ne_error (item : Item) : .error ∉ item.events := by
  match item with
  | .text chunk =>
    intro member
    cases mem_singleton.mp member
  | .element tag content =>
    intro member
    rw [Item.events] at member
    rcases mem_cons.mp member with start | later
    · cases start
    · rcases mem_append.mp later with inside | stop
      · exact contentEvents_ne_error content inside
      · cases mem_singleton.mp stop

theorem contentEvents_ne_error (content : List Item) : .error ∉ contentEvents content := by
  match content with
  | [] => exact not_mem_nil
  | item :: rest =>
    intro member
    rw [contentEvents] at member
    rcases mem_append.mp member with here | later
    · exact events_ne_error item here
    · exact contentEvents_ne_error rest later

end

theorem not_accepted_error : ¬({ events := [.error], result := 0 } : SaxRun).Accepted :=
  fun accepted => accepted.2 mem_cons_self

theorem conforming_plainParse (isUri : Text → Bool) : Conforming isUri (plainParse isUri) := by
  constructor
  · intro text accepted
    rw [plainParse] at accepted
    split at accepted
    · rename_i doc read
      split at accepted
      · rename_i conforms
        obtain ⟨name, attributes, content, rfl⟩ := readDocument_isElement read
        rw [plainParse, read]
        simp only [if_pos conforms]
        rw [infoset] at conforms ⊢
        exact ⟨_, _, conforms, rfl⟩
      · exact absurd accepted not_accepted_error
    · exact absurd accepted not_accepted_error
  · intro text doc read conforms
    obtain ⟨name, attributes, content, rfl⟩ := readDocument_isElement read
    rw [plainParse, read]
    simp only [if_pos conforms]
    refine ⟨⟨Int.le_refl 0, events_ne_error _⟩, ?_⟩
    rw [infoset] at conforms ⊢
    exact ⟨_, _, conforms, rfl, rfl⟩
  · intro text doc read malformed
    rw [plainParse, read]
    simp only [if_neg malformed]
    exact not_accepted_error

end Purple.Sax
